import MethodTrace.Text.Digits

/-!
# JSON values

Values as a text holds them: the members of an object keep their order and may repeat a name. A number keeps the
digits it was written with. Numbers are read into 64-bit words and doubles, so one whose double would be infinite
is no number at all.
-/

namespace MethodTrace

/-- A number, as written: `whole` before the point, `fraction` behind it, and a power of ten. -/
structure JsonNumber where
  negative : Bool := false
  whole : Nat
  fraction : List (Fin 10) := []
  exponent : Option Int := none
  deriving DecidableEq, Repr

/-- A value. -/
inductive Json where
  | null
  | bool (value : Bool)
  | number (value : JsonNumber)
  | string (value : String)
  | array (items : List Json)
  | object (members : List (String × Json))

namespace JsonNumber

/-- The natural number that was written, if it was written without sign, point and exponent. -/
def toNat? (n : JsonNumber) : Option Nat :=
  if n.negative = false ∧ n.fraction = [] ∧ n.exponent = none then some n.whole else none

/-! ### The size of a number -/

/-- The greatest 64-bit word. -/
def maxWord : Nat := 0xFFFFFFFFFFFFFFFF

/-- The longest run of leading digits of `n` that is a word, and how many digits are left out. -/
def leadingWord (n : Nat) : Nat × Nat :=
  if n ≤ maxWord then (n, 0)
  else
    let (lead, dropped) := leadingWord (n / 10)
    (lead, dropped + 1)
termination_by n
decreasing_by simp only [maxWord] at *; omega

/-- Append digits to a word while it stays one. Returns how many were appended. -/
def appendDigits (lead : Nat) : List (Fin 10) → Nat × Nat
  | [] => (lead, 0)
  | d :: rest =>
    if lead * 10 + d.val ≤ maxWord then
      let (lead, appended) := appendDigits (lead * 10 + d.val) rest
      (lead, appended + 1)
    else (lead, 0)

/-- The natural number of 53 significant bits nearest to `n`, the even one of two. -/
def nearestDouble (n : Nat) : Nat :=
  let unit := Nat.pow 2 (n.log2 - 52)
  let kept := n / unit
  let rest := n % unit
  let rounded :=
    if 2 * rest < unit then kept
    else if 2 * rest = unit then kept + kept % 2
    else kept + 1
  rounded * unit

/-- Where doubles end: what is not less than this rounds to infinity. -/
def doubleBound : Nat := Nat.pow 2 1024 - Nat.pow 2 970

/-- Whether the double made from the number is finite. Its leading digits and its power of ten are rounded on their
own, then multiplied. -/
def isFinite (n : JsonNumber) : Bool :=
  let (lead, dropped) := leadingWord n.whole
  let (lead, appended) := appendDigits lead n.fraction
  let power : Int := dropped - appended + n.exponent.getD 0
  if lead = 0 ∨ power < 0 then true
  else if 308 < power then false
  else nearestDouble lead * nearestDouble (Nat.pow 10 power.toNat) < doubleBound

end JsonNumber

end MethodTrace
