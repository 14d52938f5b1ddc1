/-!
# Reading bytes as text

Bytes that came through a destination may stop in the middle of a character. They are read as UTF-8 with a
replacement character for each ill-formed piece, where a piece is the longest run of bytes that could still
have become a character.
-/

namespace MethodTrace.Text

/-- A character begun: the bits so far, the bytes still owed, and the range for the next of them. -/
structure PartialChar where
  bits : Nat
  owed : Nat
  low : Nat
  high : Nat

/-- What a byte at the start of a character means. -/
inductive LeadByte where
  /-- The byte is a character. -/
  | whole (c : Char)
  /-- The byte begins a longer character. -/
  | begins (p : PartialChar)
  /-- No character begins with the byte. -/
  | illFormed

/-- Classify the first byte of a character. -/
def leadByte (b : Nat) : LeadByte :=
  if b < 0x80 then .whole (Char.ofNat b)
  else if b < 0xC2 then .illFormed
  else if b < 0xE0 then .begins ⟨b - 0xC0, 0, 0x80, 0xBF⟩
  else if b < 0xF0 then
    .begins ⟨b - 0xE0, 1, if b = 0xE0 then 0xA0 else 0x80, if b = 0xED then 0x9F else 0xBF⟩
  else if b < 0xF5 then
    .begins ⟨b - 0xF0, 2, if b = 0xF0 then 0x90 else 0x80, if b = 0xF4 then 0x8F else 0xBF⟩
  else .illFormed

/-- The character that stands for an ill-formed piece. -/
def replacement : Char := '\ufffd'

/-- The characters of a run of bytes, behind a character begun. -/
def readBytes : Option PartialChar → List UInt8 → List Char
  | none, [] => []
  | some _, [] => [replacement]
  | none, b :: rest =>
    match leadByte b.toNat with
    | .whole c => c :: readBytes none rest
    | .begins p => readBytes (some p) rest
    | .illFormed => replacement :: readBytes none rest
  | some p, b :: rest =>
    if p.low ≤ b.toNat ∧ b.toNat ≤ p.high then
      let bits := p.bits * 0x40 + (b.toNat - 0x80)
      match p.owed with
      | 0 => Char.ofNat bits :: readBytes none rest
      | owed + 1 => readBytes (some ⟨bits, owed, 0x80, 0xBF⟩) rest
    else
      match leadByte b.toNat with
      | .whole c => replacement :: c :: readBytes none rest
      | .begins q => replacement :: readBytes (some q) rest
      | .illFormed => replacement :: replacement :: readBytes none rest

/-- Bytes as text, with a replacement character for each ill-formed piece. -/
def ofBytes (bytes : ByteArray) : String :=
  String.ofList (readBytes none bytes.data.toList)

end MethodTrace.Text
