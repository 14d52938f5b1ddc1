import Mathlib.Data.List.Forall2
import Mathlib.Data.List.ReduceOption
import MethodTrace.Proofs.TextParts
import MethodTrace.Script.Lines

/-! # Scripts line by line

What a script says is told by what each of its lines says (`Says`) or by the first line that cannot be read (`Fails`),
whatever reader there is for the operation on a line. Lines that say nothing only count. -/

namespace MethodTrace

namespace ScriptError

/-- The line that an error names. -/
def line : ScriptError → Nat
  | unreadable line | invalid line => line

/-- The same error some lines further down. -/
def movedBy (count : Nat) : ScriptError → ScriptError
  | unreadable line => unreadable (line + count)
  | invalid line => invalid (line + count)

/-- The same error when some lines are put in below a line. -/
def movedBehind (position count : Nat) (error : ScriptError) : ScriptError :=
  if error.line ≤ position then error else error.movedBy count

end ScriptError

namespace Script

/-! ### The lines of a text -/

/-- A line without a carriage return at its end. -/
def withoutReturn (line : List UInt8) : List UInt8 :=
  if line.getLast? = some 0x0d then line.dropLast else line

/-- The lines of a text. A line feed ends a line, together with a carriage return before it, and the last line may end
with the text. -/
inductive HasLines : List UInt8 → List (List UInt8) → Prop
  | nil : HasLines [] []
  | unended {line : List UInt8} : line ≠ [] → 0x0a ∉ line → HasLines line [line]
  | ended {line rest : List UInt8} {lines : List (List UInt8)} : 0x0a ∉ line → HasLines rest lines →
      HasLines (line ++ 0x0a :: rest) (withoutReturn line :: lines)

theorem exists_hasLines (bytes : List UInt8) : ∃ lines, HasLines bytes lines := by
  induction bytes using Text.piece_induction (0x0a : UInt8) with
  | last line hline =>
    by_cases hempty : line = []
    · exact ⟨[], hempty ▸ .nil⟩
    · exact ⟨[line], .unended hempty hline⟩
  | cut line rest hline ih =>
    obtain ⟨lines, hlines⟩ := ih
    exact ⟨_, .ended hline hlines⟩

theorem linesOf_unended {line : List UInt8} (hne : line ≠ []) (h : 0x0a ∉ line) : linesOf line = [line] := by
  induction line with
  | nil => exact absurd rfl hne
  | cons b line ih =>
    obtain ⟨hb, hline⟩ := not_or.mp (mt List.mem_cons.mpr h)
    by_cases hempty : line = []
    · subst hempty
      exact if_neg (Ne.symm hb)
    · have hfold : line.foldr addByte [] = [line] := ih hempty hline
      simp [linesOf, addByte, hfold, Ne.symm hb]

theorem linesOf_ended {line : List UInt8} (h : 0x0a ∉ line) (rest : List UInt8) :
    linesOf (line ++ 0x0a :: rest) = line :: linesOf rest := by
  induction line with
  | nil => rfl
  | cons b line ih =>
    obtain ⟨hb, hline⟩ := not_or.mp (mt List.mem_cons.mpr h)
    have hfold : (line ++ 0x0a :: rest).foldr addByte [] = line :: linesOf rest := ih hline
    rw [List.cons_append, linesOf, List.foldr_cons, hfold]
    exact if_neg (Ne.symm hb)

namespace HasLines

theorem eq_of_no_feed {bytes : List UInt8} {lines : List (List UInt8)} (h : HasLines bytes lines)
    (hnot : 0x0a ∉ bytes) : lines = if bytes = [] then [] else [bytes] := by
  cases h with
  | nil => rfl
  | unended hne => rw [if_neg hne]
  | ended => simp at hnot

theorem cut {line rest : List UInt8} {lines : List (List UInt8)} (h : HasLines (line ++ 0x0a :: rest) lines)
    (hline : 0x0a ∉ line) : ∃ more, lines = withoutReturn line :: more ∧ HasLines rest more := by
  generalize hbytes : line ++ 0x0a :: rest = bytes at h
  cases h with
  | nil => simp at hbytes
  | unended _ hnot => exact absurd (hbytes ▸ by simp) hnot
  | @ended other more lines hother hmore =>
    have hcut := congrArg linesOf hbytes
    rw [linesOf_ended hline, linesOf_ended hother] at hcut
    obtain rfl : line = other := (List.cons.inj hcut).1
    obtain rfl : rest = more := (List.cons.inj (List.append_cancel_left hbytes)).2
    exact ⟨lines, rfl, hmore⟩

theorem unique {bytes : List UInt8} {lines others : List (List UInt8)} (h : HasLines bytes lines)
    (h' : HasLines bytes others) : lines = others := by
  induction h generalizing others with
  | nil => exact (h'.eq_of_no_feed (by simp)).symm
  | unended hne hline => rw [h'.eq_of_no_feed hline, if_neg hne]
  | ended hline _ ih =>
    obtain ⟨more, rfl, hmore⟩ := h'.cut hline
    rw [ih hmore]

theorem append {first second : List UInt8} {lines others : List (List UInt8)} (h : HasLines first lines)
    (boundary : first = [] ∨ first.getLast? = some 0x0a) (h' : HasLines second others) :
    HasLines (first ++ second) (lines ++ others) := by
  induction h with
  | nil => exact h'
  | unended hne hline =>
    rcases boundary with hempty | hlast
    · exact absurd hempty hne
    · exact absurd (List.mem_of_getLast? hlast) hline
  | @ended line rest lines hline _ ih =>
    rw [List.append_assoc, List.cons_append, List.cons_append]
    refine .ended hline (ih ?_)
    rcases boundary with hempty | hlast
    · simp at hempty
    · by_cases hrest : rest = []
      · exact .inl hrest
      · exact .inr (by simpa [List.getLast?_cons, List.getLast?_eq_some_getLast hrest] using hlast)

end HasLines

/-! ### What a line says -/

/-- The bytes of a text in UTF-8. -/
def encoded (text : String) : List UInt8 := text.toUTF8.data.toList

/-- A line that is read: it is blank or a comment and says nothing, or it has an operation. -/
inductive Says {α : Type} (read : List Char → Option α) : List UInt8 → Option α → Prop
  | nothing {text : String} {shown : List Char} : Text.Trims text.toList shown →
      shown = [] ∨ shown.head? = some '#' → Says read (encoded text) none
  | operation {text : String} {shown : List Char} {operation : α} : Text.Trims text.toList shown →
      shown ≠ [] → shown.head? ≠ some '#' → read shown = some operation → Says read (encoded text) (some operation)

/-- A line that cannot be read, and the error for it. -/
inductive Fails {α : Type} (read : List Char → Option α) : List UInt8 → (Nat → ScriptError) → Prop
  | unreadable {line : List UInt8} : (∀ text, encoded text ≠ line) → Fails read line .unreadable
  | invalid {text : String} {shown : List Char} : Text.Trims text.toList shown →
      shown ≠ [] → shown.head? ≠ some '#' → read shown = none → Fails read (encoded text) .invalid

theorem fromUTF8?_eq_some {bytes : List UInt8} {text : String} :
    String.fromUTF8? ⟨bytes.toArray⟩ = some text ↔ encoded text = bytes := by
  unfold String.fromUTF8?
  constructor
  · intro h
    split at h
    next =>
      cases h
      rfl
    next => cases h
  · rintro rfl
    exact (dif_pos text.isValidUTF8).trans rfl

theorem readLine_encoded {α : Type} (read : List Char → Option α) (number : Nat) (text : String) :
    readLine read number (encoded text) =
      if Text.trimChars text.toList = [] ∨ (Text.trimChars text.toList).head? = some '#' then .ok none
      else (read (Text.trimChars text.toList)).elim (.error (.invalid number)) fun operation => .ok (some operation) := by
  unfold readLine
  rw [fromUTF8?_eq_some.mpr rfl]
  dsimp only
  split
  · rfl
  · split <;> simp [*]

section
variable {α : Type} {read : List Char → Option α}

theorem Says.readLine {line : List UInt8} {said : Option α} (h : Says read line said) (number : Nat) :
    readLine read number line = .ok said := by
  cases h with
  | nothing htrim hskip =>
    rw [readLine_encoded, Text.trims_iff.mp htrim, if_pos hskip]
  | operation htrim hne hhash hread =>
    rw [readLine_encoded, Text.trims_iff.mp htrim, if_neg (not_or.mpr ⟨hne, hhash⟩), hread]
    rfl

theorem Fails.readLine {line : List UInt8} {fault : Nat → ScriptError} (h : Fails read line fault) (number : Nat) :
    readLine read number line = .error (fault number) := by
  cases h with
  | unreadable hnone =>
    have htext : String.fromUTF8? ⟨line.toArray⟩ = none :=
      Option.eq_none_iff_forall_ne_some.mpr fun text htext => hnone text (fromUTF8?_eq_some.mp htext)
    unfold Script.readLine
    rw [htext]
  | invalid htrim hne hhash hread =>
    rw [readLine_encoded, Text.trims_iff.mp htrim, if_neg (not_or.mpr ⟨hne, hhash⟩), hread]
    rfl

theorem says_or_fails (read : List Char → Option α) (line : List UInt8) :
    (∃ said, Says read line said) ∨ ∃ fault, Fails read line fault := by
  by_cases htext : ∃ text, encoded text = line
  · obtain ⟨text, rfl⟩ := htext
    have htrim := Text.trims_trimChars text.toList
    by_cases hskip : Text.trimChars text.toList = [] ∨ (Text.trimChars text.toList).head? = some '#'
    · exact .inl ⟨none, .nothing htrim hskip⟩
    · obtain ⟨hne, hhash⟩ := not_or.mp hskip
      cases hread : read (Text.trimChars text.toList) with
      | some operation => exact .inl ⟨some operation, .operation htrim hne hhash hread⟩
      | none => exact .inr ⟨_, .invalid htrim hne hhash hread⟩
  · exact .inr ⟨_, .unreadable fun text htext' => htext ⟨text, htext'⟩⟩

/-! ### The bytes of a text -/

theorem encoded_ofList (cs : List Char) : encoded (String.ofList cs) = cs.flatMap String.utf8EncodeChar := by
  simp [encoded, List.utf8Encode]

theorem encoded_eq (text : String) : encoded text = text.toList.flatMap String.utf8EncodeChar := by
  rw [← encoded_ofList, String.ofList_toList]

theorem encoded_append (text more : String) : encoded (text ++ more) = encoded text ++ encoded more := by
  rw [encoded_eq, encoded_eq, encoded_eq, String.toList_append, List.flatMap_append]

theorem encoded_inj {text other : String} : encoded text = encoded other ↔ text = other := by
  rw [encoded, encoded, Array.toList_inj, ← ByteArray.ext_iff]
  exact String.toByteArray_inj

/-- A byte of a character is all of it, or has its highest bit set. In neither case are its five highest bits all set. -/
theorem mem_utf8EncodeChar {c : Char} {b : UInt8} (h : b ∈ String.utf8EncodeChar c) :
    (String.utf8EncodeChar c = [b] ∧ b.toNat = c.toNat ∧ b.toNat < 0x80) ∨ 0x80 ≤ b.toNat ∧ b.toNat < 0xf8 := by
  have hlong : ∀ v : Nat, 0x80 ≤ v → v < 0xf8 → b = UInt8.ofNat v → 0x80 ≤ b.toNat ∧ b.toNat < 0xf8 := by
    rintro v hlow hhigh rfl
    rw [UInt8.toNat_ofNat', Nat.mod_eq_of_lt (by omega)]
    exact ⟨hlow, hhigh⟩
  unfold String.utf8EncodeChar at h ⊢
  dsimp only at h ⊢
  split at h
  next hsmall =>
    obtain rfl := List.mem_singleton.mp h
    rw [if_pos hsmall, UInt8.toNat_ofNat', Nat.mod_eq_of_lt (by omega)]
    exact .inl ⟨rfl, rfl, Nat.lt_succ_of_le hsmall⟩
  next =>
    refine .inr ?_
    split at h
    · simp only [List.mem_cons, List.not_mem_nil, or_false] at h
      rcases h with h | h <;> exact hlong _ (by omega) (by omega) h
    · split at h
      · simp only [List.mem_cons, List.not_mem_nil, or_false] at h
        rcases h with h | h | h <;> exact hlong _ (by omega) (by omega) h
      · simp only [List.mem_cons, List.not_mem_nil, or_false] at h
        rcases h with h | h | h | h <;> exact hlong _ (by omega) (by omega) h

/-! ### A carriage return at the end of a line -/

theorem encoded_return (text : String) : encoded (text ++ "\r") = encoded text ++ [0x0d] := by
  rw [encoded_append]
  rfl

/-- A byte as small as a control is not the last of several bytes of a character. -/
theorem utf8EncodeChar_of_small {c : Char} {init : List UInt8} {b : UInt8} (hb : b.toNat < 0x80)
    (h : String.utf8EncodeChar c = init ++ [b]) : init = [] := by
  have hmem : b ∈ String.utf8EncodeChar c := h ▸ List.mem_concat_self
  rcases mem_utf8EncodeChar hmem with ⟨hone, -, -⟩ | ⟨hlarge, -⟩
  · exact List.append_left_eq_self.mp (h.symm.trans hone)
  · omega

theorem encoded_of_return {text : String} {line : List UInt8} (h : encoded text = line ++ [0x0d]) :
    ∃ other, encoded other = line := by
  rw [encoded_eq] at h
  rcases List.eq_nil_or_concat text.toList with hnil | ⟨init, last, hlast⟩
  · simp [hnil] at h
  · rw [hlast, List.concat_eq_append, List.flatMap_append, List.flatMap_singleton] at h
    obtain ⟨bytes, b, hbytes⟩ : ∃ bytes b, String.utf8EncodeChar last = bytes ++ [b] := by
      rcases List.eq_nil_or_concat (String.utf8EncodeChar last) with hnil | ⟨bytes, b, hbytes⟩
      · exact absurd hnil String.utf8EncodeChar_ne_nil
      · exact ⟨bytes, b, by rw [hbytes, List.concat_eq_append]⟩
    rw [hbytes, ← List.append_assoc] at h
    -- The last character ends with the return, so that it is the return and has no other byte.
    obtain ⟨hline, hreturn⟩ := List.append_inj' h rfl
    obtain rfl : b = 0x0d := List.singleton_inj.mp hreturn
    obtain rfl := utf8EncodeChar_of_small (by decide) hbytes
    exact ⟨String.ofList init, by rw [encoded_ofList, ← hline, List.append_nil]⟩

theorem trims_return {text : String} {shown : List Char} (h : Text.Trims text.toList shown) :
    Text.Trims (text ++ "\r").toList shown := by
  obtain ⟨⟨before, after, heq, hbefore, hafter⟩, hfirst, hlast⟩ := h
  refine ⟨⟨before, after ++ ['\r'], by simp [heq], hbefore, fun c hc => ?_⟩, hfirst, hlast⟩
  rcases List.mem_append.mp hc with hc | hc
  · exact hafter c hc
  · rw [List.mem_singleton.mp hc]
    decide

theorem Says.withReturn {line : List UInt8} {said : Option α} (h : Says read line said) :
    Says read (line ++ [0x0d]) said := by
  cases h with
  | nothing htrim hskip =>
    rw [← encoded_return]
    exact .nothing (trims_return htrim) hskip
  | operation htrim hne hhash hread =>
    rw [← encoded_return]
    exact .operation (trims_return htrim) hne hhash hread

theorem Fails.withReturn {line : List UInt8} {fault : Nat → ScriptError} (h : Fails read line fault) :
    Fails read (line ++ [0x0d]) fault := by
  cases h with
  | unreadable hnone =>
    refine .unreadable fun text htext => ?_
    obtain ⟨other, hother⟩ := encoded_of_return htext
    exact hnone other hother
  | invalid htrim hne hhash hread =>
    rw [← encoded_return]
    exact .invalid (trims_return htrim) hne hhash hread

theorem readLine_return (read : List Char → Option α) (number : Nat) (line : List UInt8) :
    readLine read number (line ++ [0x0d]) = readLine read number line := by
  rcases says_or_fails read line with ⟨said, htells⟩ | ⟨fault, hfails⟩
  · rw [htells.readLine, htells.withReturn.readLine]
  · rw [hfails.readLine, hfails.withReturn.readLine]

theorem readLine_withoutReturn (read : List Char → Option α) (number : Nat) (line : List UInt8) :
    readLine read number (withoutReturn line) = readLine read number line := by
  unfold withoutReturn
  split
  next hlast =>
    obtain ⟨init, rfl⟩ := List.getLast?_eq_some_iff.mp hlast
    rw [List.dropLast_concat, readLine_return]
  next => rfl

/-! ### Line after line -/

/-- What each of some lines says, the first of which has a number. -/
def readFrom (read : List Char → Option α) (number : Nat) (lines : List (List UInt8)) :
    Except ScriptError (List (Option α)) :=
  (lines.zipIdx number).mapM fun (line, number) => readLine read number line

theorem readFrom_cons (read : List Char → Option α) (number : Nat) (line : List UInt8) (lines : List (List UInt8)) :
    readFrom read number (line :: lines) =
      (readLine read number line).bind fun said => (readFrom read (number + 1) lines).map (said :: ·) := by
  rw [readFrom, List.zipIdx_cons, List.mapM_cons]
  rfl

theorem readFrom_linesOf {bytes : List UInt8} {lines : List (List UInt8)} (h : HasLines bytes lines) (number : Nat) :
    readFrom read number (linesOf bytes) = readFrom read number lines := by
  induction h generalizing number with
  | nil => rfl
  | unended hne hline => rw [linesOf_unended hne hline]
  | ended hline _ ih => rw [linesOf_ended hline, readFrom_cons, readFrom_cons, readLine_withoutReturn, ih]

theorem readFrom_of_said {lines : List (List UInt8)} {said : List (Option α)} (h : List.Forall₂ (Says read) lines said)
    (number : Nat) : readFrom read number lines = .ok said := by
  induction h generalizing number with
  | nil => rfl
  | cons htells _ ih =>
    rw [readFrom_cons, htells.readLine, ih]
    rfl

theorem readFrom_of_fails {before after : List (List UInt8)} {line : List UInt8} {said : List (Option α)}
    {fault : Nat → ScriptError} (hbefore : List.Forall₂ (Says read) before said) (hline : Fails read line fault)
    (number : Nat) : readFrom read number (before ++ line :: after) = .error (fault (number + before.length)) := by
  induction hbefore generalizing number with
  | nil =>
    rw [List.nil_append, readFrom_cons, hline.readLine]
    rfl
  | @cons _ _ before _ htells _ ih =>
    have hnumber : number + 1 + before.length = number + (before.length + 1) := by omega
    rw [List.cons_append, readFrom_cons, htells.readLine, ih, List.length_cons, hnumber]
    rfl

/-- Each line is read, or there is a first one that is not. -/
theorem all_say_or_fails (read : List Char → Option α) (lines : List (List UInt8)) :
    (∃ said, List.Forall₂ (Says read) lines said) ∨
      ∃ before line after said fault, lines = before ++ line :: after ∧ List.Forall₂ (Says read) before said ∧
        Fails read line fault := by
  induction lines with
  | nil => exact .inl ⟨[], .nil⟩
  | cons line lines ih =>
    rcases says_or_fails read line with ⟨said, htells⟩ | ⟨fault, hfails⟩
    · rcases ih with ⟨more, hmore⟩ | ⟨before, failing, after, more, fault, rfl, hbefore, hfails⟩
      · exact .inl ⟨said :: more, .cons htells hmore⟩
      · exact .inr ⟨line :: before, failing, after, said :: more, fault, rfl, .cons htells hbefore, hfails⟩
    · exact .inr ⟨[], line, lines, [], fault, rfl, .nil, hfails⟩

theorem Says.not_fails {line : List UInt8} {said : Option α} (h : Says read line said) (fault : Nat → ScriptError) :
    ¬Fails read line fault := by
  intro hfails
  cases (h.readLine 0).symm.trans (hfails.readLine 0)

theorem not_fails_of_all_say {lines : List (List UInt8)} {said : List (Option α)}
    (h : List.Forall₂ (Says read) lines said) : ∀ line ∈ lines, ∀ fault, ¬Fails read line fault := by
  induction h with
  | nil => simp
  | cons htells _ ih => exact List.forall_mem_cons.mpr ⟨htells.not_fails, ih⟩

theorem all_say_of_not_fails {lines : List (List UInt8)} (h : ∀ line ∈ lines, ∀ fault, ¬Fails read line fault) :
    ∃ said, List.Forall₂ (Says read) lines said := by
  rcases all_say_or_fails read lines with htells | ⟨before, line, after, -, fault, rfl, -, hfails⟩
  · exact htells
  · exact absurd hfails (h line (by simp) fault)

theorem Fails.line_eq {line : List UInt8} {fault : Nat → ScriptError} (h : Fails read line fault) (number : Nat) :
    (fault number).line = number := by
  cases h <;> rfl

theorem Fails.movedBy {line : List UInt8} {fault : Nat → ScriptError} (h : Fails read line fault) (number count : Nat) :
    (fault number).movedBy count = fault (number + count) := by
  cases h <;> rfl

/-! ### Every script -/

/-- What comes of a script with these lines. The error is that of the first line that cannot be read. -/
structure ReadsAs (read : List Char → Option α) (lines : List (List UInt8)) (result : Except ScriptError (List α)) :
    Prop where
  fails : (∃ error, result = .error error) ↔ ∃ line ∈ lines, ∃ fault, Fails read line fault
  error : ∀ error, result = .error error ↔
    ∃ before line after fault, lines = before ++ line :: after ∧ (∀ other ∈ before, ∀ fault, ¬Fails read other fault) ∧
      Fails read line fault ∧ error = fault (before.length + 1)
  ok : ∀ operations, result = .ok operations ↔
    ∃ said, List.Forall₂ (Says read) lines said ∧ operations = said.reduceOption

/-- The operations of some lines. -/
def operationsOf (read : List Char → Option α) (lines : List (List UInt8)) : Except ScriptError (List α) :=
  (readFrom read 1 lines).map List.reduceOption

theorem parseWith_eq {bytes : List UInt8} {lines : List (List UInt8)} (h : HasLines bytes lines) :
    parseWith read bytes = operationsOf read lines := by
  rw [operationsOf, ← readFrom_linesOf h]
  rfl

theorem operationsOf_of_said {lines : List (List UInt8)} {said : List (Option α)}
    (h : List.Forall₂ (Says read) lines said) : operationsOf read lines = .ok said.reduceOption := by
  rw [operationsOf, readFrom_of_said h]
  rfl

theorem operationsOf_of_fails {before after : List (List UInt8)} {line : List UInt8} {said : List (Option α)}
    {fault : Nat → ScriptError} (hbefore : List.Forall₂ (Says read) before said) (hline : Fails read line fault) :
    operationsOf read (before ++ line :: after) = .error (fault (before.length + 1)) := by
  rw [operationsOf, readFrom_of_fails hbefore hline, Nat.add_comm]
  rfl

theorem readsAs (read : List Char → Option α) (lines : List (List UInt8)) :
    ReadsAs read lines (operationsOf read lines) := by
  have hfailed : ∀ {before line after fault}, lines = before ++ line :: after →
      (∀ other ∈ before, ∀ fault, ¬Fails read other fault) → Fails read line fault →
        operationsOf read lines = .error (fault (before.length + 1)) := by
    rintro before line after fault rfl hbefore hfails
    obtain ⟨said, hsaid⟩ := all_say_of_not_fails hbefore
    exact operationsOf_of_fails hsaid hfails
  rcases all_say_or_fails read lines with ⟨said, hsaid⟩ | ⟨before, line, after, said, fault, heq, hbefore, hfails⟩
  · have hok := operationsOf_of_said hsaid
    have hnone := not_fails_of_all_say hsaid
    refine ⟨⟨?_, ?_⟩, fun error => ⟨?_, ?_⟩, fun operations => ⟨fun h => ⟨said, hsaid, ?_⟩, ?_⟩⟩
    · rintro ⟨error, herror⟩
      cases hok.symm.trans herror
    · rintro ⟨line, hmem, fault, hfails⟩
      exact absurd hfails (hnone line hmem fault)
    · intro herror
      cases hok.symm.trans herror
    · rintro ⟨before, line, after, fault, rfl, -, hfails, -⟩
      exact absurd hfails (hnone line (by simp) fault)
    · exact Except.ok.inj (h.symm.trans hok)
    · rintro ⟨other, hother, rfl⟩
      exact operationsOf_of_said hother
  · have hnone := not_fails_of_all_say hbefore
    have herror := hfailed heq hnone hfails
    refine ⟨⟨fun _ => ?_, fun _ => ⟨_, herror⟩⟩, fun error => ⟨fun h => ?_, ?_⟩, fun operations => ⟨fun h => ?_, ?_⟩⟩
    · exact ⟨line, heq ▸ by simp, fault, hfails⟩
    · exact ⟨before, line, after, fault, heq, hnone, hfails, Except.error.inj (h.symm.trans herror)⟩
    · rintro ⟨start, other, rest, kind, heq', hstart, hother, rfl⟩
      exact hfailed heq' hstart hother
    · cases herror.symm.trans h
    · rintro ⟨other, hother, -⟩
      exact absurd hfails (not_fails_of_all_say hother line (heq ▸ by simp) fault)

theorem says_nothing {lines : List (List UInt8)} (h : ∀ line ∈ lines, Says read line none) :
    List.Forall₂ (Says read) lines (List.replicate lines.length none) := by
  induction lines with
  | nil => exact .nil
  | cons line lines ih =>
    obtain ⟨hline, hlines⟩ := List.forall_mem_cons.mp h
    exact .cons hline (ih hlines)

theorem says_append {first second : List (List UInt8)} {said more : List (Option α)}
    (h : List.Forall₂ (Says read) first said) (h' : List.Forall₂ (Says read) second more) :
    List.Forall₂ (Says read) (first ++ second) (said ++ more) :=
  List.rel_append h h'

/-- Lines that say nothing make no difference but to the numbers of the lines below. -/
theorem operationsOf_insert {skipped : List (List UInt8)} (hskipped : ∀ line ∈ skipped, Says read line none)
    (before after : List (List UInt8)) :
    operationsOf read (before ++ skipped ++ after) =
      (operationsOf read (before ++ after)).mapError (·.movedBehind before.length skipped.length) := by
  -- The first line that cannot be read is among the lines before, among those after, or nowhere.
  rcases all_say_or_fails read before with ⟨said, hsaid⟩ | ⟨start, line, rest, said, fault, rfl, hstart, hfails⟩
  · have hthrough := says_append hsaid (says_nothing hskipped)
    rcases all_say_or_fails read after with ⟨more, hmore⟩ | ⟨start, line, rest, more, fault, rfl, hstart, hfails⟩
    · rw [operationsOf_of_said (says_append hthrough hmore), operationsOf_of_said (says_append hsaid hmore)]
      simp [List.reduceOption_append, Except.mapError]
    · have hnumber : (before ++ skipped ++ start).length + 1 = (before ++ start).length + 1 + skipped.length := by
        simp only [List.length_append]
        omega
      have hbelow : ¬(before ++ start).length + 1 ≤ before.length := by
        simp only [List.length_append]
        omega
      rw [← List.append_assoc, ← List.append_assoc, operationsOf_of_fails (says_append hthrough hstart) hfails,
        operationsOf_of_fails (says_append hsaid hstart) hfails, Except.mapError, ScriptError.movedBehind,
        hfails.line_eq, if_neg hbelow, hfails.movedBy, hnumber]
  · rw [List.append_assoc, List.append_assoc, List.append_assoc, List.cons_append, List.cons_append,
      operationsOf_of_fails hstart hfails, operationsOf_of_fails hstart hfails, Except.mapError, ScriptError.movedBehind,
      hfails.line_eq, if_pos (by simp)]

theorem operationsOf_append (read : List Char → Option α) (first second : List (List UInt8)) :
    operationsOf read (first ++ second) = (operationsOf read first).bind fun operations =>
      ((operationsOf read second).mapError (·.movedBy first.length)).map (operations ++ ·) := by
  rcases all_say_or_fails read first with ⟨said, hsaid⟩ | ⟨start, line, rest, said, fault, rfl, hstart, hfails⟩
  · rw [operationsOf_of_said hsaid]
    rcases all_say_or_fails read second with ⟨more, hmore⟩ | ⟨start, line, rest, more, fault, rfl, hstart, hfails⟩
    · rw [operationsOf_of_said hmore, operationsOf_of_said (says_append hsaid hmore), List.reduceOption_append]
      rfl
    · have hnumber : (first ++ start).length + 1 = start.length + 1 + first.length := by
        simp only [List.length_append]
        omega
      rw [← List.append_assoc, operationsOf_of_fails (says_append hsaid hstart) hfails,
        operationsOf_of_fails hstart hfails, hnumber, ← hfails.movedBy]
      rfl
  · rw [List.append_assoc, List.cons_append, operationsOf_of_fails hstart hfails, operationsOf_of_fails hstart hfails]
    rfl

end

/-- Whatever reader there is for the operation on a line, a text has its lines in one way only, and what comes of it is
told by the lines. Lines that say nothing can be put in or left out anywhere: the operations stay, and the error of a
line below names a line that is by so many further down. Of a text that ends between two lines and another behind it,
the operations follow each other, and an error of the second names the line behind those of the first. -/
theorem parse_line_by_line {α : Type} (read : List Char → Option α) :
    (∀ bytes, ∃ lines, HasLines bytes lines ∧ (∀ others, HasLines bytes others → others = lines) ∧
        ReadsAs read lines (parseWith read bytes)) ∧
      (∀ (before skipped after : List (List UInt8)) (bytes more : List UInt8),
        (∀ line ∈ skipped, Says read line none) → HasLines bytes (before ++ after) →
          HasLines more (before ++ skipped ++ after) →
            parseWith read more =
              (parseWith read bytes).mapError (·.movedBehind before.length skipped.length)) ∧
      ∀ (first second : List UInt8) (lines : List (List UInt8)), HasLines first lines →
        first = [] ∨ first.getLast? = some 0x0a →
          parseWith read (first ++ second) = (parseWith read first).bind fun operations =>
            ((parseWith read second).mapError (·.movedBy lines.length)).map (operations ++ ·) := by
  refine ⟨fun bytes => ?_, fun before skipped after bytes more hskipped hbytes hmore => ?_,
    fun first second lines hlines boundary => ?_⟩
  · obtain ⟨lines, hlines⟩ := exists_hasLines bytes
    refine ⟨lines, hlines, fun others hothers => hothers.unique hlines, ?_⟩
    rw [parseWith_eq hlines]
    exact readsAs read lines
  · rw [parseWith_eq hmore, parseWith_eq hbytes]
    exact operationsOf_insert hskipped before after
  · obtain ⟨others, hothers⟩ := exists_hasLines second
    rw [parseWith_eq (hlines.append boundary hothers), parseWith_eq hlines, parseWith_eq hothers]
    exact operationsOf_append read lines others

theorem wrong_operation_under_comment :
    (∀ line ∈ [encoded "  # note", []], Says Operation.ofLine? line none) ∧
      HasLines (encoded "\x7b\"op\":\"start\"\x7d\njump") ([encoded "\x7b\"op\":\"start\"\x7d"] ++ [encoded "jump"]) ∧
      HasLines (encoded "\x7b\"op\":\"start\"\x7d\n  # note\r\n\njump")
        ([encoded "\x7b\"op\":\"start\"\x7d"] ++ [encoded "  # note", []] ++ [encoded "jump"]) ∧
      HasLines (encoded "\x7b\"op\":\"start\"\x7d\n") [encoded "\x7b\"op\":\"start\"\x7d"] ∧
      parseWith Operation.ofLine? (encoded "\x7b\"op\":\"start\"\x7d\n  # note\r\n\njump") = .error (.invalid 4) ∧
      parseWith Operation.ofLine? (encoded "\x7b\"op\":\"start\"\x7d\n" ++ encoded "jump") = .error (.invalid 2) := by
  obtain ⟨-, inserted, joined⟩ := parse_line_by_line Operation.ofLine?
  have hskipped : ∀ line ∈ [encoded "  # note", []], Says Operation.ofLine? line none := by
    simp only [List.forall_mem_cons]
    refine ⟨.nothing (Text.trims_iff.mpr rfl) (.inr rfl), ?_, by simp⟩
    exact @Says.nothing _ _ "" [] (Text.trims_iff.mpr rfl) (.inl rfl)
  have hjump : HasLines (encoded "jump") [encoded "jump"] := .unended (by decide) (by decide)
  have hnote : HasLines (encoded "  # note\r\n\njump") ([encoded "  # note", []] ++ [encoded "jump"]) :=
    @HasLines.ended (encoded "  # note\r") _ _ (by decide) (@HasLines.ended [] _ _ (by decide) hjump)
  have hstart : HasLines (encoded "\x7b\"op\":\"start\"\x7d\n") [encoded "\x7b\"op\":\"start\"\x7d"] :=
    @HasLines.ended (encoded "\x7b\"op\":\"start\"\x7d") _ _ (by decide) .nil
  have hshort := hstart.append (.inr rfl) hjump
  have hlong := hstart.append (.inr rfl) hnote
  refine ⟨hskipped, hshort, hlong, hstart, ?_, ?_⟩
  · refine (inserted _ _ _ _ _ hskipped hshort hlong).trans ?_
    decide +kernel
  · refine (joined _ _ _ hstart (.inr rfl)).trans ?_
    decide +kernel

end Script
end MethodTrace
