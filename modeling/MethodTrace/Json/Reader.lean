import MethodTrace.Json.Basic
import MethodTrace.Text.Parts

/-!
# Reading JSON

A text is read from front to back; each function returns what it read and the text behind it, or nothing. Values
nest at most `maxDepth` deep, the outermost container counted. The text of a string holds no control characters,
and its escapes spell whole characters: halves of a surrogate pair come in pairs.
-/

namespace MethodTrace
namespace Json

/-- How deep containers nest. -/
def maxDepth : Nat := 127

/-- A blank between the parts of a value. -/
def isGap (c : Char) : Bool :=
  c = ' ' || c = '\t' || c = '\n' || c = '\r'

/-- The text behind any blanks. -/
def skipGaps (cs : List Char) : List Char :=
  cs.dropWhile isGap

/-! ### Strings -/

/-- The character that a backslash and a letter spell. -/
def shortEscape? : Char → Option Char
  | '\x22' => some '\x22'
  | '\x5c' => some '\x5c'
  | '/' => some '/'
  | 'b' => some '\x08'
  | 'f' => some '\x0c'
  | 'n' => some '\n'
  | 'r' => some '\r'
  | 't' => some '\t'
  | _ => none

/-- Whether a number is the first half of a surrogate pair. -/
def isHighHalf (n : Nat) : Bool := 0xD800 ≤ n && n < 0xDC00

/-- Whether a number is the second half of a surrogate pair. -/
def isLowHalf (n : Nat) : Bool := 0xDC00 ≤ n && n < 0xE000

/-- The character of a surrogate pair. -/
def ofHalves (high low : Nat) : Char :=
  Char.ofNat (0x10000 + (high - 0xD800) * 0x400 + (low - 0xDC00))

/-- A string, from behind its opening quote. -/
def readString : List Char → Option (List Char × List Char)
  | [] => none
  | '\x22' :: rest => some ([], rest)
  | '\x5c' :: 'u' :: a :: b :: c :: d :: rest =>
    match Text.hexValue? [a, b, c, d] with
    | none => none
    | some first =>
      if isLowHalf first then none
      else if isHighHalf first then
        match rest with
        | '\x5c' :: 'u' :: e :: f :: g :: h :: rest =>
          match Text.hexValue? [e, f, g, h] with
          | none => none
          | some second =>
            if isLowHalf second then (readString rest).map fun (text, rest) => (ofHalves first second :: text, rest)
            else none
        | _ => none
      else (readString rest).map fun (text, rest) => (Char.ofNat first :: text, rest)
  | '\x5c' :: letter :: rest =>
    match shortEscape? letter with
    | none => none
    | some c => (readString rest).map fun (text, rest) => (c :: text, rest)
  | c :: rest =>
    if c.toNat < 0x20 ∨ c = '\x5c' then none
    else (readString rest).map fun (text, rest) => (c :: text, rest)

/-! ### Numbers -/

/-- The value of a decimal digit. -/
def decimal? (c : Char) : Option (Fin 10) :=
  if c.isDigit then some (Fin.ofNat 10 (c.toNat - '0'.toNat)) else none

/-- The digits at the front. -/
def readDigits : List Char → List (Fin 10) × List Char
  | [] => ([], [])
  | c :: rest =>
    match decimal? c with
    | none => ([], c :: rest)
    | some d =>
      let (digits, rest) := readDigits rest
      (d :: digits, rest)

/-- The number that digits stand for. -/
def natOfDigits (digits : List (Fin 10)) : Nat :=
  Text.ofDigits 10 (digits.map Fin.val)

/-- The digits before the point: a single zero, or digits that do not begin with one. -/
def readWhole (cs : List Char) : Option (Nat × List Char) :=
  match readDigits cs with
  | ([], _) => none
  | ([d], rest) => some (d.val, rest)
  | (d :: more, rest) => if d = 0 then none else some (natOfDigits (d :: more), rest)

/-- The point and the digits behind it, if there is a point. -/
def readFraction : List Char → Option (List (Fin 10) × List Char)
  | '.' :: rest =>
    match readDigits rest with
    | ([], _) => none
    | (digits, rest) => some (digits, rest)
  | cs => some ([], cs)

/-- The digits of an exponent. -/
def readPower (negative : Bool) (cs : List Char) : Option (Option Int × List Char) :=
  match readDigits cs with
  | ([], _) => none
  | (digits, rest) =>
    let power : Int := natOfDigits digits
    some (some (if negative then -power else power), rest)

/-- The exponent, if there is one. -/
def readExponent : List Char → Option (Option Int × List Char)
  | [] => some (none, [])
  | c :: rest =>
    if c = 'e' ∨ c = 'E' then
      match rest with
      | '-' :: rest => readPower true rest
      | '+' :: rest => readPower false rest
      | rest => readPower false rest
    else some (none, c :: rest)

/-- A number from behind its sign. -/
def readUnsigned (negative : Bool) (cs : List Char) : Option (Json × List Char) :=
  match readWhole cs with
  | none => none
  | some (whole, rest) =>
    match readFraction rest with
    | none => none
    | some (fraction, rest) =>
      match readExponent rest with
      | none => none
      | some (exponent, rest) =>
        let n : JsonNumber := { negative, whole, fraction, exponent }
        if n.isFinite then some (.number n, rest) else none

/-- A number. -/
def readNumber : List Char → Option (Json × List Char)
  | '-' :: rest => readUnsigned true rest
  | cs => readUnsigned false cs

/-! ### Values -/

/-- One of the three words, or a number. -/
def readPlain (cs : List Char) : Option (Json × List Char) :=
  match Text.behind? "true".toList cs, Text.behind? "false".toList cs, Text.behind? "null".toList cs with
  | some rest, _, _ => some (.bool true, rest)
  | none, some rest, _ => some (.bool false, rest)
  | none, none, some rest => some (.null, rest)
  | none, none, none => readNumber cs

mutual

/-- A value whose containers nest at most `depth` deep. -/
def readValue (fuel depth : Nat) (cs : List Char) : Option (Json × List Char) :=
  match fuel with
  | 0 => none
  | fuel + 1 =>
    match skipGaps cs, depth with
    | '\x22' :: rest, _ => (readString rest).map fun (text, rest) => (.string (String.ofList text), rest)
    | '[' :: _, 0 | '\x7b' :: _, 0 => none
    | '[' :: rest, depth + 1 =>
      match skipGaps rest with
      | ']' :: rest => some (.array [], rest)
      | rest => (readItems fuel depth rest).map fun (items, rest) => (.array items, rest)
    | '\x7b' :: rest, depth + 1 =>
      match skipGaps rest with
      | '\x7d' :: rest => some (.object [], rest)
      | rest => (readMembers fuel depth rest).map fun (members, rest) => (.object members, rest)
    | cs, _ => readPlain cs

/-- The items of an array up to its end, at least one. -/
def readItems (fuel depth : Nat) (cs : List Char) : Option (List Json × List Char) :=
  match fuel with
  | 0 => none
  | fuel + 1 =>
    match readValue fuel depth cs with
    | none => none
    | some (item, rest) =>
      match skipGaps rest with
      | ',' :: rest => (readItems fuel depth rest).map fun (items, rest) => (item :: items, rest)
      | ']' :: rest => some ([item], rest)
      | _ => none

/-- The members of an object up to its end, at least one. -/
def readMembers (fuel depth : Nat) (cs : List Char) : Option (List (String × Json) × List Char) :=
  match fuel with
  | 0 => none
  | fuel + 1 =>
    match skipGaps cs with
    | '\x22' :: rest =>
      match readString rest with
      | none => none
      | some (name, rest) =>
        match skipGaps rest with
        | ':' :: rest =>
          match readValue fuel depth rest with
          | none => none
          | some (value, rest) =>
            let member := (String.ofList name, value)
            match skipGaps rest with
            | ',' :: rest =>
              (readMembers fuel depth rest).map fun (members, rest) => (member :: members, rest)
            | '\x7d' :: rest => some ([member], rest)
            | _ => none
        | _ => none
    | _ => none

end

/-- The value that a text holds, with nothing but blanks around it. Every second step of the reader takes a
character, so the fuel is enough. -/
def ofChars? (cs : List Char) : Option Json :=
  match readValue (2 * cs.length + 2) maxDepth cs with
  | some (value, rest) => if (skipGaps rest).isEmpty then some value else none
  | none => none

end Json
end MethodTrace
