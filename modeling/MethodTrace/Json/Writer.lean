import MethodTrace.Json.Basic

/-!
# Writing JSON

A value in one line, without blanks. In a string only quotes, backslashes and control characters are escaped. What is
written holds no control character, so that it can stand on a line.
-/

namespace MethodTrace

/-- A number, digit by digit as it is kept. -/
def JsonNumber.write (n : JsonNumber) : List Char :=
  (if n.negative then ['-'] else []) ++ Nat.toDigits 10 n.whole ++
    (match n.fraction with
      | [] => []
      | digits => '.' :: digits.map fun d => d.val.digitChar) ++
    (match n.exponent with
      | none => []
      | some (.ofNat power) => 'e' :: Nat.toDigits 10 power
      | some (.negSucc power) => 'e' :: '-' :: Nat.toDigits 10 (power + 1))

namespace Json

/-- The letter behind a backslash that stands for a character, if there is one. -/
def shortEscapeOf? : Char → Option Char
  | '\x22' => some '\x22'
  | '\x5c' => some '\x5c'
  | '\x08' => some 'b'
  | '\x0c' => some 'f'
  | '\n' => some 'n'
  | '\r' => some 'r'
  | '\t' => some 't'
  | _ => none

/-- A character in a string. -/
def writeChar (c : Char) : List Char :=
  match shortEscapeOf? c with
  | some letter => ['\x5c', letter]
  | none =>
    if c.toNat < 0x20 then ['\x5c', 'u', '0', '0', (c.toNat / 16).digitChar, (c.toNat % 16).digitChar] else [c]

/-- A string with its quotes. -/
def writeString (text : String) : List Char :=
  '\x22' :: text.toList.flatMap writeChar ++ ['\x22']

mutual

/-- A value. -/
def write : Json → List Char
  | null => ['n', 'u', 'l', 'l']
  | bool true => ['t', 'r', 'u', 'e']
  | bool false => ['f', 'a', 'l', 's', 'e']
  | number n => n.write
  | string text => writeString text
  | array items => '[' :: writeItems items ++ [']']
  | object members => '\x7b' :: writeMembers members ++ ['\x7d']

/-- The items of an array. -/
def writeItems : List Json → List Char
  | [] => []
  | [item] => item.write
  | item :: next :: items => item.write ++ ',' :: writeItems (next :: items)

/-- The members of an object. -/
def writeMembers : List (String × Json) → List Char
  | [] => []
  | [(name, value)] => writeString name ++ ':' :: value.write
  | (name, value) :: next :: members => writeString name ++ ':' :: value.write ++ ',' :: writeMembers (next :: members)

end

end Json
end MethodTrace
