/-!
# Numerals and columns

Numbers in base sixteen and ten, and text brought to a fixed width.
-/

namespace MethodTrace.Text

/-- The digits of `n` in base sixteen, in lower case and without leading zeros. -/
def hex (n : Nat) : String :=
  String.ofList (Nat.toDigits 16 n)

/-- The text with `filler` before it until it is `width` characters long. -/
def padStart (filler : Char) (width : Nat) (text : String) : String :=
  String.ofList (List.replicate (width - text.length) filler) ++ text

/-- The text with `filler` after it until it is `width` characters long. -/
def padEnd (filler : Char) (width : Nat) (text : String) : String :=
  text ++ String.ofList (List.replicate (width - text.length) filler)

/-- The value of a digit of the given base, at most sixteen; letters count in both cases. -/
def digit? (base : Nat) (c : Char) : Option Nat :=
  let value :=
    if '0' ≤ c ∧ c ≤ '9' then some (c.toNat - '0'.toNat)
    else if 'a' ≤ c ∧ c ≤ 'f' then some (c.toNat - 'a'.toNat + 10)
    else if 'A' ≤ c ∧ c ≤ 'F' then some (c.toNat - 'A'.toNat + 10)
    else none
  value.filter (· < base)

/-- The number that a run of digit values stands for, most significant first. -/
def ofDigits (base : Nat) (digits : List Nat) : Nat :=
  digits.foldl (fun n d => n * base + d) 0

/-- The number that hexadecimal digits spell, if they all are. -/
def hexValue? (digits : List Char) : Option Nat :=
  (digits.mapM (digit? 16)).map (ofDigits 16)

end MethodTrace.Text
