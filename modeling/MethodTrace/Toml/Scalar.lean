import MethodTrace.Text.Digits
import MethodTrace.Toml.Basic

/-!
# Texts and integers in TOML

Each function reads from the front of a text and returns what it read and the text behind it, or nothing. Texts
come in four forms: with or without escapes, on one line or on many. On many lines, a line ends with a line feed
however it was written.
-/

namespace MethodTrace
namespace Toml

/-- Whether a character may stand in a comment or a text: any but controls, where the tab is none. -/
def isPlain (c : Char) : Bool :=
  c = '\t' || (0x20 ≤ c.toNat && c.toNat ≠ 0x7F)

/-- A blank within a line. -/
def isGap (c : Char) : Bool :=
  c = ' ' || c = '\t'

/-- The text behind any blanks within a line. -/
def skipGaps (cs : List Char) : List Char :=
  cs.dropWhile isGap

/-- The text behind the end of a line, if it begins with one. -/
def behindLineEnd? : List Char → Option (List Char)
  | '\n' :: rest => some rest
  | '\r' :: '\n' :: rest => some rest
  | _ => none

/-! ### Texts -/

/-- The character that a backslash and a letter spell. -/
def shortEscape? : Char → Option Char
  | 'b' => some '\x08'
  | 't' => some '\t'
  | 'n' => some '\n'
  | 'f' => some '\x0c'
  | 'r' => some '\r'
  | '\x22' => some '\x22'
  | '\x5c' => some '\x5c'
  | _ => none

/-- The character that hexadecimal digits number. -/
def numbered? (digits : List Char) : Option Char :=
  (Text.hexValue? digits).bind fun n => if n.isValidChar then some (Char.ofNat n) else none

/-- A character before what was read behind it, if both were read. -/
def consRead (c : Option Char) (behind : Option (List Char × List Char)) : Option (List Char × List Char) :=
  match c, behind with
  | some c, some (text, rest) => some (c :: text, rest)
  | _, _ => none

/-- A text with escapes on one line, from behind its opening quote. -/
def readBasic : List Char → Option (List Char × List Char)
  | [] => none
  | '\x22' :: rest => some ([], rest)
  | '\x5c' :: 'u' :: a :: b :: c :: d :: rest => consRead (numbered? [a, b, c, d]) (readBasic rest)
  | '\x5c' :: 'U' :: a :: b :: c :: d :: e :: f :: g :: h :: rest =>
    consRead (numbered? [a, b, c, d, e, f, g, h]) (readBasic rest)
  | '\x5c' :: letter :: rest => consRead (shortEscape? letter) (readBasic rest)
  | c :: rest => if isPlain c && c ≠ '\x5c' then consRead (some c) (readBasic rest) else none

/-- A text without escapes on one line, from behind its opening quote. -/
def readLiteral : List Char → Option (List Char × List Char)
  | [] => none
  | '\x27' :: rest => some ([], rest)
  | c :: rest => if isPlain c then consRead (some c) (readLiteral rest) else none

/-- The end of a text on many lines: three of its quotes, and up to two before them that belong to the text. -/
def readLongEnd (quote : Char) : List Char → Option (List Char × List Char)
  | a :: b :: c :: rest =>
    if a = quote ∧ b = quote ∧ c = quote then
      match rest with
      | d :: e :: behind =>
        if d = quote ∧ e = quote then some ([quote, quote], behind)
        else if d = quote then some ([quote], e :: behind)
        else some ([], rest)
      | [d] => if d = quote then some ([quote], []) else some ([], [d])
      | [] => some ([], [])
    else none
  | _ => none

/-- Whether the first character is a blank or belongs to the end of a line. -/
def atSpace : List Char → Bool
  | [] => false
  | c :: rest => isGap c || c = '\n' || (c = '\r' && rest.head? = some '\n')

/-- A text with escapes on many lines. A backslash at the end of a line takes away the blanks and lines up to the
next other character, which is what `skipping` is for. -/
def readLongBasic (skipping : Bool) (cs : List Char) : Option (List Char × List Char) :=
  match cs with
  | [] => none
  | c :: rest =>
    if skipping && atSpace (c :: rest) then readLongBasic true rest
    else if c = '\x22' then
      match readLongEnd '\x22' (c :: rest) with
      | some ended => some ended
      | none => consRead (some c) (readLongBasic false rest)
    else if c = '\x5c' then
      if (behindLineEnd? (skipGaps rest)).isSome then readLongBasic true rest
      else
        match rest with
        | 'u' :: a :: b :: c :: d :: rest => consRead (numbered? [a, b, c, d]) (readLongBasic false rest)
        | 'U' :: a :: b :: c :: d :: e :: f :: g :: h :: rest =>
          consRead (numbered? [a, b, c, d, e, f, g, h]) (readLongBasic false rest)
        | letter :: rest => consRead (shortEscape? letter) (readLongBasic false rest)
        | [] => none
    else if c = '\r' && rest.head? = some '\n' then readLongBasic false rest
    else if isPlain c || c = '\n' then consRead (some c) (readLongBasic false rest)
    else none

/-- A text without escapes on many lines. -/
def readLongLiteral : List Char → Option (List Char × List Char)
  | [] => none
  | c :: rest =>
    if c = '\x27' then
      match readLongEnd '\x27' (c :: rest) with
      | some ended => some ended
      | none => consRead (some c) (readLongLiteral rest)
    else if c = '\r' && rest.head? = some '\n' then readLongLiteral rest
    else if isPlain c || c = '\n' then consRead (some c) (readLongLiteral rest)
    else none

/-- The text behind the end of a line, or the text itself. A line end right behind the opening quotes of a text on
many lines is no part of it. -/
def skipFirstLineEnd (cs : List Char) : List Char :=
  (behindLineEnd? cs).getD cs

/-- A text in any form. -/
def readString : List Char → Option (List Char × List Char)
  | '\x22' :: '\x22' :: '\x22' :: rest => readLongBasic false (skipFirstLineEnd rest)
  | '\x22' :: rest => readBasic rest
  | '\x27' :: '\x27' :: '\x27' :: rest => readLongLiteral (skipFirstLineEnd rest)
  | '\x27' :: rest => readLiteral rest
  | _ => none

/-! ### Integers -/

/-- Digits, where a single underscore may stand between two. -/
def readDigits (base : Nat) : List Char → List Nat × List Char
  | [] => ([], [])
  | '_' :: c :: rest =>
    match Text.digit? base c with
    | some d =>
      let (digits, rest) := readDigits base rest
      (d :: digits, rest)
    | none => ([], '_' :: c :: rest)
  | c :: rest =>
    match Text.digit? base c with
    | some d =>
      let (digits, rest) := readDigits base rest
      (d :: digits, rest)
    | none => ([], c :: rest)

/-- A number in the given base; it begins with a digit. -/
def readNatural (base : Nat) (cs : List Char) : Option (Nat × List Char) :=
  if cs.head? = some '_' then none
  else
    match readDigits base cs with
    | ([], _) => none
    | (digits, rest) => some (Text.ofDigits base digits, rest)

/-- A decimal number: a single zero, or digits that do not begin with one. -/
def readDecimal : List Char → Option (Nat × List Char)
  | '0' :: rest => some (0, rest)
  | cs => readNatural 10 cs

/-- An integer of any size. -/
def readUnbounded : List Char → Option (Int × List Char)
  | '0' :: 'x' :: rest => (readNatural 16 rest).map fun (n, rest) => (n, rest)
  | '0' :: 'o' :: rest => (readNatural 8 rest).map fun (n, rest) => (n, rest)
  | '0' :: 'b' :: rest => (readNatural 2 rest).map fun (n, rest) => (n, rest)
  | '+' :: rest => (readDecimal rest).map fun (n, rest) => (n, rest)
  | '-' :: rest => (readDecimal rest).map fun (n, rest) => (-n, rest)
  | cs => (readDecimal cs).map fun (n, rest) => (n, rest)

/-- An integer of 64 bits with a sign. -/
def readInteger (cs : List Char) : Option (Int × List Char) :=
  match readUnbounded cs with
  | some (n, rest) => if -0x8000000000000000 ≤ n ∧ n < 0x8000000000000000 then some (n, rest) else none
  | none => none

end Toml
end MethodTrace
