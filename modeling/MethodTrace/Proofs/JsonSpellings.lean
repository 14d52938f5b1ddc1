import Mathlib.Data.List.DropRight
import MethodTrace.Json.Reader
import MethodTrace.Json.Writer

/-! # Spellings of JSON values

A value can be spelled in many ways: with blanks between its parts, with characters escaped or not, with zeros before
an exponent. `Spells` is the grammar of these spellings, without the limits that a reader may set. The reader finds the
value in every spelling within its limits (`Spells.ofChars?_eq`), and what the writer writes is a spelling. -/

namespace MethodTrace

namespace JsonNumber

theorem nearestDouble_le {n : Nat} (hn : n ≠ 0) : nearestDouble n ≤ 2 * n := by
  unfold nearestDouble
  dsimp only
  have hunit : Nat.pow 2 (n.log2 - 52) ≤ n :=
    (Nat.pow_le_pow_right (by decide) (Nat.sub_le _ _)).trans (Nat.log2_self_le hn)
  have hdiv := Nat.div_add_mod n (Nat.pow 2 (n.log2 - 52))
  generalize Nat.pow 2 (n.log2 - 52) = unit at *
  have hround : ∀ rounded, rounded ≤ n / unit + 1 → rounded * unit ≤ 2 * n := by
    intro rounded hle
    have hmul := Nat.mul_le_mul_right unit hle
    rw [Nat.add_mul, Nat.one_mul, Nat.mul_comm (n / unit)] at hmul
    omega
  apply hround
  split
  · exact Nat.le_succ _
  · split
    · omega
    · exact Nat.le_refl _

/-- Every word is a finite double. -/
theorem isFinite_of_word {n : Nat} (h : n ≤ maxWord) : ({ whole := n } : JsonNumber).isFinite = true := by
  have hlead : leadingWord n = (n, 0) := by rw [leadingWord, if_pos h]
  have hone : nearestDouble (Nat.pow 10 0) = 1 := by decide
  have hbound : 2 * maxWord < doubleBound := by decide +kernel
  unfold isFinite
  simp only [hlead, appendDigits]
  split
  · rfl
  next hlarge =>
    have hne : n ≠ 0 := fun hzero => hlarge (.inl hzero)
    have hle := nearestDouble_le hne
    have hpower : ((0 : Nat) : Int) - (0 : Nat) + (none : Option Int).getD 0 = 0 := rfl
    simp only [hpower, Int.toNat_zero, hone, Nat.mul_one]
    rw [if_neg (by decide)]
    exact decide_eq_true (by omega)

end JsonNumber

namespace Json

/-! ### The grammar -/

/-- A text of blanks. -/
def Gap (cs : List Char) : Prop := ∀ c ∈ cs, isGap c = true

/-- A hexadecimal digit, in either case. -/
def SpellsDigit (n : Nat) (c : Char) : Prop := c = n.digitChar ∨ c = n.digitChar.toUpper

/-- Four hexadecimal digits behind a backslash and a letter. -/
inductive SpellsUnit (n : Nat) : List Char → Prop
  | digits {a b c d : Char} : SpellsDigit (n / 0x1000) a → SpellsDigit (n / 0x100 % 16) b →
      SpellsDigit (n / 0x10 % 16) c → SpellsDigit (n % 16) d → SpellsUnit n ['\x5c', 'u', a, b, c, d]

/-- The letters that stand for a character behind a backslash. -/
def shortEscapes : List (Char × Char) :=
  [('\x22', '\x22'), ('\x5c', '\x5c'), ('/', '/'), ('b', '\x08'), ('f', '\x0c'), ('n', '\n'), ('r', '\r'), ('t', '\t')]

/-- A character in a string. One beyond the first `0x10000` is escaped as a pair of halves. -/
inductive SpellsChar (c : Char) : List Char → Prop
  | plain : 0x20 ≤ c.toNat → c ≠ '\x22' → c ≠ '\x5c' → SpellsChar c [c]
  | short {letter : Char} : (letter, c) ∈ shortEscapes → SpellsChar c ['\x5c', letter]
  | unit {cs : List Char} : c.toNat < 0x10000 → SpellsUnit c.toNat cs → SpellsChar c cs
  | pair {high low : List Char} : 0x10000 ≤ c.toNat → SpellsUnit (0xD800 + (c.toNat - 0x10000) / 0x400) high →
      SpellsUnit (0xDC00 + (c.toNat - 0x10000) % 0x400) low → SpellsChar c (high ++ low)

/-- What stands between the quotes of a string. -/
inductive SpellsText : List Char → List Char → Prop
  | nil : SpellsText [] []
  | cons {c : Char} {text cs rest : List Char} : SpellsChar c cs → SpellsText text rest →
      SpellsText (c :: text) (cs ++ rest)

/-- A digit as it is written. -/
def digitChar (d : Fin 10) : Char := d.val.digitChar

/-- The point of a number and the digits behind it. -/
inductive SpellsFraction : List (Fin 10) → List Char → Prop
  | absent : SpellsFraction [] []
  | present {digits : List (Fin 10)} : digits ≠ [] → SpellsFraction digits ('.' :: digits.map digitChar)

/-- The power of ten of a number. -/
inductive SpellsExponent : Option Int → List Char → Prop
  | absent : SpellsExponent none []
  | positive {e : Char} {sign : List Char} (zeros power : Nat) : e = 'e' ∨ e = 'E' → sign = [] ∨ sign = ['+'] →
      SpellsExponent (some power) (e :: sign ++ List.replicate zeros '0' ++ Nat.toDigits 10 power)
  | negative {e : Char} (zeros power : Nat) : e = 'e' ∨ e = 'E' →
      SpellsExponent (some (-power)) (e :: '-' :: List.replicate zeros '0' ++ Nat.toDigits 10 power)

/-- A number. No zero stands before other digits. -/
inductive SpellsNumber : JsonNumber → List Char → Prop
  | number {negative : Bool} {whole : Nat} {fraction : List (Fin 10)} {exponent : Option Int}
      {behind power : List Char} : SpellsFraction fraction behind → SpellsExponent exponent power →
      SpellsNumber { negative, whole, fraction, exponent }
        ((if negative then ['-'] else []) ++ Nat.toDigits 10 whole ++ behind ++ power)

/-- A value, or what stands between the brackets of one. -/
inductive Part where
  | value (json : Json)
  | items (list : List Json)
  | members (list : List (String × Json))

/-- A spelling. Items and members are at least one; the spelling of a value holds the blanks around it. -/
inductive Spells : Part → List Char → Prop
  | padded {json : Json} {before cs after : List Char} : Gap before → Spells (.value json) cs → Gap after →
      Spells (.value json) (before ++ cs ++ after)
  | nullWord : Spells (.value .null) ['n', 'u', 'l', 'l']
  | trueWord : Spells (.value (.bool true)) ['t', 'r', 'u', 'e']
  | falseWord : Spells (.value (.bool false)) ['f', 'a', 'l', 's', 'e']
  | number {n : JsonNumber} {cs : List Char} : SpellsNumber n cs → Spells (.value (.number n)) cs
  | string {text : String} {cs : List Char} : SpellsText text.toList cs →
      Spells (.value (.string text)) ('\x22' :: cs ++ ['\x22'])
  | emptyArray {gap : List Char} : Gap gap → Spells (.value (.array [])) ('[' :: gap ++ [']'])
  | array {items : List Json} {cs : List Char} : Spells (.items items) cs →
      Spells (.value (.array items)) ('[' :: cs ++ [']'])
  | emptyObject {gap : List Char} : Gap gap → Spells (.value (.object [])) ('\x7b' :: gap ++ ['\x7d'])
  | object {members : List (String × Json)} {cs : List Char} : Spells (.members members) cs →
      Spells (.value (.object members)) ('\x7b' :: cs ++ ['\x7d'])
  | item {json : Json} {cs : List Char} : Spells (.value json) cs → Spells (.items [json]) cs
  | moreItems {json : Json} {items : List Json} {cs rest : List Char} : Spells (.value json) cs →
      Spells (.items items) rest → Spells (.items (json :: items)) (cs ++ ',' :: rest)
  | member {name : String} {json : Json} {before quoted after cs : List Char} : Gap before →
      SpellsText name.toList quoted → Gap after → Spells (.value json) cs →
      Spells (.members [(name, json)]) (before ++ '\x22' :: quoted ++ '\x22' :: after ++ ':' :: cs)
  | moreMembers {name : String} {json : Json} {members : List (String × Json)}
      {before quoted after cs rest : List Char} : Gap before → SpellsText name.toList quoted → Gap after →
      Spells (.value json) cs → Spells (.members members) rest →
      Spells (.members ((name, json) :: members))
        (before ++ '\x22' :: quoted ++ '\x22' :: after ++ ':' :: cs ++ ',' :: rest)

/-! ### Strings -/

theorem digit?_of_spelled {n : Nat} {c : Char} (hn : n < 16) (h : SpellsDigit n c) : Text.digit? 16 c = some n := by
  have hlower : ∀ n < 16, Text.digit? 16 n.digitChar = some n := by decide
  have hupper : ∀ n < 16, Text.digit? 16 n.digitChar.toUpper = some n := by decide
  rcases h with rfl | rfl
  · exact hlower n hn
  · exact hupper n hn

theorem SpellsUnit.exists_digits {n : Nat} {cs : List Char} (h : SpellsUnit n cs) (hn : n < 0x10000) :
    ∃ a b c d, cs = ['\x5c', 'u', a, b, c, d] ∧ Text.hexValue? [a, b, c, d] = some n := by
  cases h with
  | @digits a b c d ha hb hc hd =>
    refine ⟨a, b, c, d, rfl, ?_⟩
    have hthird := digit?_of_spelled (by omega) ha
    have hsecond := digit?_of_spelled (by omega) hb
    have hfirst := digit?_of_spelled (by omega) hc
    have hlast := digit?_of_spelled (by omega) hd
    simp only [Text.hexValue?, List.mapM_cons, List.mapM_nil, hthird, hsecond, hfirst, hlast]
    simp only [Option.pure_def, Option.bind_eq_bind, Option.bind_some, Option.map_some, Text.ofDigits, List.foldl_cons,
      List.foldl_nil, Option.some.injEq]
    omega

theorem readString_unit {n : Nat} {cs : List Char} (hunit : SpellsUnit n cs)
    (hbound : n < 0xD800 ∨ 0xE000 ≤ n ∧ n < 0x10000) (rest : List Char) :
    readString (cs ++ rest) = (readString rest).map fun (text, rest) => (Char.ofNat n :: text, rest) := by
  obtain ⟨a, b, c, d, rfl, hvalue⟩ := hunit.exists_digits (by omega)
  have hlow : isLowHalf n = false := by
    simp only [isLowHalf, Bool.and_eq_false_imp, decide_eq_true_eq, decide_eq_false_iff_not]
    omega
  have hhigh : isHighHalf n = false := by
    simp only [isHighHalf, Bool.and_eq_false_imp, decide_eq_true_eq, decide_eq_false_iff_not]
    omega
  simp only [List.cons_append, List.nil_append]
  rw [readString, hvalue]
  simp only [hlow, hhigh, Bool.false_eq_true, if_false]

theorem readString_pair {n m : Nat} {high low : List Char} (hhigh : SpellsUnit n high) (hlow : SpellsUnit m low)
    (hn : 0xD800 ≤ n ∧ n < 0xDC00) (hm : 0xDC00 ≤ m ∧ m < 0xE000) (rest : List Char) :
    readString (high ++ low ++ rest) = (readString rest).map fun (text, rest) => (ofHalves n m :: text, rest) := by
  obtain ⟨a, b, c, d, rfl, hfirst⟩ := hhigh.exists_digits (by omega)
  obtain ⟨e, f, g, h, rfl, hsecond⟩ := hlow.exists_digits (by omega)
  have hnotLow : isLowHalf n = false := by
    simp only [isLowHalf, Bool.and_eq_false_imp, decide_eq_true_eq, decide_eq_false_iff_not]
    omega
  have hisHigh : isHighHalf n = true := by simpa [isHighHalf] using hn
  have hisLow : isLowHalf m = true := by simpa [isLowHalf] using hm
  simp only [List.cons_append, List.nil_append]
  rw [readString, hfirst]
  simp only [hnotLow, hisHigh, hisLow, hsecond, Bool.false_eq_true, if_false, if_true]

theorem readString_short {letter c : Char} (h : (letter, c) ∈ shortEscapes) (rest : List Char) :
    readString ('\x5c' :: letter :: rest) = (readString rest).map fun (text, rest) => (c :: text, rest) := by
  simp only [shortEscapes, List.mem_cons, Prod.mk.injEq, List.not_mem_nil, or_false] at h
  rcases h with ⟨rfl, rfl⟩ | ⟨rfl, rfl⟩ | ⟨rfl, rfl⟩ | ⟨rfl, rfl⟩ | ⟨rfl, rfl⟩ | ⟨rfl, rfl⟩ | ⟨rfl, rfl⟩ | ⟨rfl, rfl⟩
  all_goals rfl

theorem readString_plain {c : Char} (hbound : 0x20 ≤ c.toNat) (hquote : c ≠ '\x22') (hslash : c ≠ '\x5c')
    (rest : List Char) : readString (c :: rest) = (readString rest).map fun (text, rest) => (c :: text, rest) := by
  rw [readString.eq_5 c rest hquote (fun _ _ _ _ _ h _ => hslash h) fun _ _ h _ => hslash h, if_neg]
  rintro (hcontrol | h)
  · omega
  · exact hslash h

theorem SpellsChar.readString_eq {c : Char} {cs : List Char} (h : SpellsChar c cs) (rest : List Char) :
    readString (cs ++ rest) = (readString rest).map fun (text, rest) => (c :: text, rest) := by
  have hvalid : c.toNat < 0xD800 ∨ 0xE000 ≤ c.toNat ∧ c.toNat < 0x110000 := by
    rcases c.valid with h | ⟨h, h'⟩
    · exact .inl h
    · exact .inr ⟨h, h'⟩
  cases h with
  | plain hbound hquote hslash => exact readString_plain hbound hquote hslash rest
  | short hletter => exact readString_short hletter rest
  | unit hbound hunit =>
    rw [readString_unit hunit (by omega), Char.ofNat_toNat]
  | pair hbound hhigh hlow =>
    have hchar : ofHalves (0xD800 + (c.toNat - 0x10000) / 0x400) (0xDC00 + (c.toNat - 0x10000) % 0x400) = c := by
      have hnumber : 0x10000 + (0xD800 + (c.toNat - 0x10000) / 0x400 - 0xD800) * 0x400 +
          (0xDC00 + (c.toNat - 0x10000) % 0x400 - 0xDC00) = c.toNat := by omega
      rw [ofHalves, hnumber, Char.ofNat_toNat]
    rw [readString_pair hhigh hlow (by omega) (by omega), hchar]

theorem SpellsText.readString_eq {text cs : List Char} (h : SpellsText text cs) (rest : List Char) :
    readString (cs ++ '\x22' :: rest) = some (text, rest) := by
  induction h with
  | nil => rfl
  | cons hchar _ ih => rw [List.append_assoc, hchar.readString_eq, ih, Option.map_some]

/-! ### Numbers -/

/-- No digit stands at the front. -/
def NoDigit (rest : List Char) : Prop := ∀ c, rest.head? = some c → c.isDigit = false

/-- What stands behind a number cannot be a part of it. -/
def Ends (rest : List Char) : Prop :=
  ∀ c, rest.head? = some c → c.isDigit = false ∧ c ≠ '.' ∧ c ≠ 'e' ∧ c ≠ 'E'

theorem Ends.noDigit {rest : List Char} (h : Ends rest) : NoDigit rest := fun c hc => (h c hc).1

theorem isDigit_digitChar : ∀ d, (digitChar d).isDigit = true := by decide

theorem decimal?_digitChar : ∀ d, decimal? (digitChar d) = some d := by decide

theorem readDigits_append (digits : List (Fin 10)) {rest : List Char} (h : NoDigit rest) :
    readDigits (digits.map digitChar ++ rest) = (digits, rest) := by
  induction digits with
  | nil =>
    cases rest with
    | nil => rfl
    | cons c rest =>
      have hnone : decimal? c = none := by simp [decimal?, h c rfl]
      rw [List.map_nil, List.nil_append, readDigits, hnone]
  | cons d digits ih => rw [List.map_cons, List.cons_append, readDigits, decimal?_digitChar, ih]

theorem natOfDigits_concat (digits : List (Fin 10)) (d : Fin 10) :
    natOfDigits (digits ++ [d]) = natOfDigits digits * 10 + d.val := by
  simp [natOfDigits, Text.ofDigits]

theorem natOfDigits_zeros (zeros : Nat) (digits : List (Fin 10)) :
    natOfDigits (List.replicate zeros 0 ++ digits) = natOfDigits digits := by
  induction zeros with
  | zero => rfl
  | succ zeros ih => exact ih

/-- The digits of a number, of which the first is no zero unless it is the only one. -/
theorem exists_digits (n : Nat) : ∃ digits : List (Fin 10), Nat.toDigits 10 n = digits.map digitChar ∧
    natOfDigits digits = n ∧ digits ≠ [] ∧ (digits.head? = some 0 → digits = [0]) := by
  induction n using Nat.strongRecOn with
  | ind n ih =>
    rcases Nat.lt_or_ge n 10 with hn | hn
    · refine ⟨[⟨n, hn⟩], Nat.toDigits_of_lt_base hn, ?_, by simp, by simp⟩
      simp [natOfDigits, Text.ofDigits]
    · obtain ⟨digits, hdigits, hvalue, hne, hzero⟩ := ih (n / 10) (by omega)
      refine ⟨digits ++ [⟨n % 10, by omega⟩], ?_, ?_, by simp, fun hhead => ?_⟩
      · rw [Nat.toDigits_of_base_le (by decide) hn, hdigits, List.map_append]
        rfl
      · rw [natOfDigits_concat, hvalue]
        exact Nat.div_add_mod' n 10
      · rw [List.head?_append, List.head?_eq_some_head hne, Option.some_or, ← List.head?_eq_some_head hne] at hhead
        rw [hzero hhead] at hvalue
        change 0 = n / 10 at hvalue
        omega

theorem readWhole_append (n : Nat) {rest : List Char} (h : NoDigit rest) :
    readWhole (Nat.toDigits 10 n ++ rest) = some (n, rest) := by
  obtain ⟨digits, hdigits, hvalue, hne, hzero⟩ := exists_digits n
  rw [hdigits, readWhole, readDigits_append digits h]
  rcases digits with _ | ⟨d, _ | ⟨e, digits⟩⟩
  · exact absurd rfl hne
  · rw [← hvalue]
    simp [natOfDigits, Text.ofDigits]
  · have hd : d ≠ 0 := by
      rintro rfl
      simp at hzero
    simp only [if_neg hd, hvalue]

theorem SpellsFraction.readFraction_eq {digits : List (Fin 10)} {cs rest : List Char} (h : SpellsFraction digits cs)
    (hdigit : NoDigit rest) (hpoint : rest.head? ≠ some '.') : readFraction (cs ++ rest) = some (digits, rest) := by
  cases h with
  | absent =>
    rcases rest with _ | ⟨c, rest⟩
    · rfl
    · rw [List.nil_append, readFraction]
      intro more heq
      cases heq
      exact hpoint rfl
  | present hne =>
    rw [List.cons_append, readFraction, readDigits_append digits hdigit]
    cases digits with
    | nil => exact absurd rfl hne
    | cons => rfl

theorem readPower_append (negative : Bool) (zeros power : Nat) {rest : List Char} (h : NoDigit rest) :
    readPower negative (List.replicate zeros '0' ++ Nat.toDigits 10 power ++ rest) =
      some (some (if negative then -(power : Int) else power), rest) := by
  obtain ⟨digits, hdigits, hvalue, hne, -⟩ := exists_digits power
  have hzeros : List.replicate zeros '0' = (List.replicate zeros 0).map digitChar := by
    rw [List.map_replicate]
    rfl
  rw [hzeros, hdigits, ← List.map_append, readPower, readDigits_append _ h]
  rcases hall : List.replicate zeros 0 ++ digits with _ | ⟨d, more⟩
  · exact absurd (List.append_eq_nil_iff.mp hall).2 hne
  · simp only [← hall, natOfDigits_zeros, hvalue]

/-- An exponent begins with a digit behind its sign. -/
theorem exists_power (zeros power : Nat) (rest : List Char) :
    ∃ c tail, List.replicate zeros '0' ++ Nat.toDigits 10 power ++ rest = c :: tail ∧ c.isDigit = true := by
  obtain ⟨digits, hdigits, -, hne, -⟩ := exists_digits power
  cases zeros with
  | zero =>
    cases digits with
    | nil => exact absurd rfl hne
    | cons d digits => exact ⟨digitChar d, digits.map digitChar ++ rest, by simp [hdigits], isDigit_digitChar d⟩
  | succ zeros =>
    exact ⟨'0', List.replicate zeros '0' ++ Nat.toDigits 10 power ++ rest, by simp [List.replicate_succ], rfl⟩

theorem readExponent_unsigned {e : Char} (he : e = 'e' ∨ e = 'E') (zeros power : Nat) {rest : List Char}
    (h : NoDigit rest) :
    readExponent (e :: (List.replicate zeros '0' ++ Nat.toDigits 10 power ++ rest)) =
      some (some (power : Int), rest) := by
  have hread := readPower_append false zeros power h
  obtain ⟨c, tail, hpower, hdigit⟩ := exists_power zeros power rest
  rw [hpower] at hread ⊢
  unfold readExponent
  dsimp only
  rw [if_pos he]
  split
  next heq =>
    cases heq
    cases hdigit
  next heq =>
    cases heq
    cases hdigit
  next => exact hread

theorem SpellsExponent.readExponent_eq {exponent : Option Int} {cs rest : List Char} (h : SpellsExponent exponent cs)
    (hends : Ends rest) : readExponent (cs ++ rest) = some (exponent, rest) := by
  cases h with
  | absent =>
    rcases rest with _ | ⟨c, rest⟩
    · rfl
    · obtain ⟨-, -, he, hE⟩ := hends c rfl
      unfold readExponent
      exact if_neg (not_or.mpr ⟨he, hE⟩)
  | positive zeros power he hsign =>
    simp only [List.append_assoc, List.cons_append]
    rw [← List.append_assoc (List.replicate zeros '0')]
    rcases hsign with rfl | rfl
    · exact readExponent_unsigned he zeros power hends.noDigit
    · rw [List.singleton_append, readExponent, if_pos he]
      exact readPower_append false zeros power hends.noDigit
  | negative zeros power he =>
    simp only [List.append_assoc, List.cons_append]
    rw [← List.append_assoc, readExponent, if_pos he]
    exact readPower_append true zeros power hends.noDigit

theorem SpellsExponent.head? {exponent : Option Int} {cs rest : List Char} (h : SpellsExponent exponent cs)
    (hends : Ends rest) : NoDigit (cs ++ rest) ∧ (cs ++ rest).head? ≠ some '.' := by
  have hletter : ∀ {e : Char} {tail : List Char}, e = 'e' ∨ e = 'E' →
      NoDigit (e :: tail) ∧ (e :: tail).head? ≠ some '.' := by
    rintro e tail (rfl | rfl)
    · exact ⟨by rintro c ⟨⟩; rfl, by simp⟩
    · exact ⟨by rintro c ⟨⟩; rfl, by simp⟩
  cases h with
  | absent => exact ⟨hends.noDigit, fun hpoint => (hends '.' hpoint).2.1 rfl⟩
  | positive _ _ he => exact hletter he
  | negative _ _ he => exact hletter he

theorem SpellsFraction.noDigit {digits : List (Fin 10)} {cs rest : List Char} (h : SpellsFraction digits cs)
    (hrest : NoDigit rest) : NoDigit (cs ++ rest) := by
  cases h with
  | absent => exact hrest
  | present =>
    rintro c ⟨⟩
    rfl

/-- A number from behind its sign. -/
theorem readUnsigned_append (negative : Bool) (whole : Nat) {fraction : List (Fin 10)} {exponent : Option Int}
    {behind power rest : List Char} (hfraction : SpellsFraction fraction behind)
    (hexponent : SpellsExponent exponent power) (hends : Ends rest)
    (finite : { negative, whole, fraction, exponent : JsonNumber }.isFinite = true) :
    readUnsigned negative (Nat.toDigits 10 whole ++ (behind ++ (power ++ rest))) =
      some (.number { negative, whole, fraction, exponent }, rest) := by
  obtain ⟨hdigit, hpoint⟩ := hexponent.head? hends
  rw [readUnsigned, readWhole_append whole (hfraction.noDigit hdigit)]
  simp only [hfraction.readFraction_eq hdigit hpoint, hexponent.readExponent_eq hends, finite, if_true]

theorem SpellsNumber.readNumber_eq {n : JsonNumber} {cs rest : List Char} (h : SpellsNumber n cs) (hends : Ends rest)
    (finite : n.isFinite = true) : readNumber (cs ++ rest) = some (.number n, rest) := by
  cases h with
  | @number negative whole fraction exponent behind power hfraction hexponent =>
    have hread := readUnsigned_append negative whole hfraction hexponent hends finite
    simp only [List.append_assoc]
    cases negative with
    | true => exact hread
    | false =>
      obtain ⟨c, tail, hwhole, hdigit⟩ := exists_power 0 whole (behind ++ (power ++ rest))
      rw [List.replicate_zero, List.nil_append] at hwhole
      rw [hwhole] at hread
      show readNumber (Nat.toDigits 10 whole ++ (behind ++ (power ++ rest))) = _
      rw [hwhole, readNumber, hread]
      intro more heq
      cases heq
      cases hdigit

/-- A character with which only a number can begin. -/
def BeginsNumber (c : Char) : Prop := c = '-' ∨ c.isDigit = true

theorem BeginsNumber.ne {c d : Char} (h : BeginsNumber c) (hd : ¬BeginsNumber d) : c ≠ d := by
  rintro rfl
  exact hd h

instance (c : Char) : Decidable (BeginsNumber c) := inferInstanceAs (Decidable (_ ∨ _))

theorem BeginsNumber.not_gap {c : Char} (h : BeginsNumber c) : isGap c = false := by
  simp only [isGap, Bool.or_eq_false_iff, decide_eq_false_iff_not]
  exact ⟨⟨⟨h.ne (by decide), h.ne (by decide)⟩, h.ne (by decide)⟩, h.ne (by decide)⟩

theorem SpellsNumber.exists_head {n : JsonNumber} {cs : List Char} (h : SpellsNumber n cs) (rest : List Char) :
    ∃ c tail, cs ++ rest = c :: tail ∧ BeginsNumber c := by
  cases h with
  | @number negative whole fraction exponent behind power _ _ =>
    simp only [List.append_assoc]
    cases negative with
    | true => exact ⟨'-', _, rfl, .inl rfl⟩
    | false =>
      obtain ⟨c, tail, hwhole, hdigit⟩ := exists_power 0 whole (behind ++ (power ++ rest))
      exact ⟨c, tail, hwhole, .inr hdigit⟩

/-! ### Gaps -/

theorem skipGaps_append {gap : List Char} (h : Gap gap) (cs : List Char) : skipGaps (gap ++ cs) = skipGaps cs :=
  List.dropWhile_append_of_pos h

theorem skipGaps_cons {c : Char} (h : isGap c = false) (cs : List Char) : skipGaps (c :: cs) = c :: cs :=
  List.dropWhile_cons_of_neg (by simp [h])

theorem skipGaps_colon {gap : List Char} (h : Gap gap) (cs : List Char) : skipGaps (gap ++ ':' :: cs) = ':' :: cs := by
  rw [skipGaps_append h, skipGaps_cons rfl]

theorem skipGaps_skipGaps (cs : List Char) : skipGaps (skipGaps cs) = skipGaps cs :=
  List.dropWhile_idempotent isGap cs

theorem Ends.cons {c : Char} {rest : List Char} (h : c.isDigit = false ∧ c ≠ '.' ∧ c ≠ 'e' ∧ c ≠ 'E') :
    Ends (c :: rest) := by
  rintro _ ⟨⟩
  exact h

theorem Ends.append {gap rest : List Char} (hgap : Gap gap) (h : Ends rest) : Ends (gap ++ rest) := by
  cases gap with
  | nil => exact h
  | cons c gap =>
    rintro _ ⟨⟩
    have hc := hgap c List.mem_cons_self
    simp only [isGap, Bool.or_eq_true, decide_eq_true_eq] at hc
    rcases hc with ((rfl | rfl) | rfl) | rfl <;> decide

section
variable {fuel depth : Nat} {cs : List Char}

theorem readValue_skipGaps : readValue fuel depth (skipGaps cs) = readValue fuel depth cs := by
  cases fuel with
  | zero => rfl
  | succ fuel =>
    unfold readValue
    rw [skipGaps_skipGaps]

theorem readItems_skipGaps : readItems fuel depth (skipGaps cs) = readItems fuel depth cs := by
  cases fuel with
  | zero => rfl
  | succ fuel =>
    unfold readItems
    rw [readValue_skipGaps]

theorem readMembers_skipGaps : readMembers fuel depth (skipGaps cs) = readMembers fuel depth cs := by
  cases fuel with
  | zero => rfl
  | succ fuel =>
    unfold readMembers
    rw [skipGaps_skipGaps]

end

/-! ### Values -/

/-- A value within the limits of the reader: its containers nest at most so deep, and its numbers are finite doubles. -/
inductive Fits : Nat → Json → Prop
  | null {depth : Nat} : Fits depth .null
  | bool {depth : Nat} {value : Bool} : Fits depth (.bool value)
  | number {depth : Nat} {n : JsonNumber} : n.isFinite = true → Fits depth (.number n)
  | string {depth : Nat} {text : String} : Fits depth (.string text)
  | array {depth : Nat} {items : List Json} : (∀ item ∈ items, Fits depth item) → Fits (depth + 1) (.array items)
  | object {depth : Nat} {members : List (String × Json)} : (∀ member ∈ members, Fits depth member.2) →
      Fits (depth + 1) (.object members)

namespace Part

/-- Every value of a part is within the limits. -/
def Fits (depth : Nat) : Part → Prop
  | value json => json.Fits depth
  | items list => ∀ item ∈ list, item.Fits depth
  | members list => ∀ member ∈ list, member.2.Fits depth

/-- The reader finds a part in a spelling, whatever comes behind it. Of blanks behind a value it may leave some. -/
def ReadFrom (depth : Nat) (cs : List Char) : Part → Prop
  | value json => ∀ fuel rest, 2 * cs.length ≤ fuel → Ends rest →
      ∃ left, readValue (fuel + 1) depth (cs ++ rest) = some (json, left) ∧ skipGaps left = skipGaps rest
  | items list => ∀ fuel rest, 2 * cs.length ≤ fuel →
      readItems (fuel + 2) depth (cs ++ ']' :: rest) = some (list, rest)
  | members list => ∀ fuel rest, 2 * cs.length ≤ fuel →
      readMembers (fuel + 2) depth (cs ++ '\x7d' :: rest) = some (list, rest)

end Part

theorem readPlain_number {c : Char} (h : c ≠ 't' ∧ c ≠ 'f' ∧ c ≠ 'n') (tail : List Char) :
    readPlain (c :: tail) = readNumber (c :: tail) := by
  obtain ⟨ht, hf, hn⟩ := h
  simp [readPlain, Text.behind?, ht.symm, hf.symm, hn.symm]

theorem readValue_plain {c : Char} {tail : List Char} (hgap : isGap c = false)
    (h : c ≠ '\x22' ∧ c ≠ '[' ∧ c ≠ '\x7b') (fuel depth : Nat) :
    readValue (fuel + 1) depth (c :: tail) = readPlain (c :: tail) := by
  have hskip := skipGaps_cons hgap tail
  have hnot : ∀ {d : Char} {more : List Char}, c ≠ d → skipGaps (c :: tail) ≠ d :: more := by
    intro d more hne heq
    rw [hskip] at heq
    exact hne (List.cons.inj heq).1
  rw [readValue.eq_7 _ _ _ (fun _ => hnot h.1) (fun _ heq _ => hnot h.2.1 heq) (fun _ heq _ => hnot h.2.2 heq)
    (fun _ _ heq _ => hnot h.2.1 heq) (fun _ _ heq _ => hnot h.2.2 heq), hskip]

theorem readValue_array {cs tail rest : List Char} {items : List Json} {c : Char} {fuel depth : Nat}
    (hread : readItems fuel depth cs = some (items, rest)) (hhead : skipGaps cs = c :: tail) (hc : c ≠ ']') :
    readValue (fuel + 1) (depth + 1) ('[' :: cs) = some (.array items, rest) := by
  rw [← readItems_skipGaps] at hread
  rw [readValue.eq_5 _ _ _ _ (skipGaps_cons (by decide) cs)]
  split
  next heq =>
    rw [hhead] at heq
    exact absurd (List.cons.inj heq).1 hc
  next => rw [hread, Option.map_some]

theorem readValue_object {cs tail rest : List Char} {members : List (String × Json)} {c : Char} {fuel depth : Nat}
    (hread : readMembers fuel depth cs = some (members, rest)) (hhead : skipGaps cs = c :: tail) (hc : c ≠ '\x7d') :
    readValue (fuel + 1) (depth + 1) ('\x7b' :: cs) = some (.object members, rest) := by
  rw [← readMembers_skipGaps] at hread
  rw [readValue.eq_6 _ _ _ _ (skipGaps_cons (by decide) cs)]
  split
  next heq =>
    rw [hhead] at heq
    exact absurd (List.cons.inj heq).1 hc
  next => rw [hread, Option.map_some]

theorem readItems_last {json : Json} {cs left rest : List Char} {fuel depth : Nat}
    (hread : readValue fuel depth cs = some (json, left)) (hleft : skipGaps left = ']' :: rest) :
    readItems (fuel + 1) depth cs = some ([json], rest) := by
  rw [readItems, hread]
  simp only [hleft]

theorem readItems_more {json : Json} {cs left more : List Char} {fuel depth : Nat}
    (hread : readValue fuel depth cs = some (json, left)) (hleft : skipGaps left = ',' :: more) :
    readItems (fuel + 1) depth cs =
      (readItems fuel depth more).map fun (items, rest) => (json :: items, rest) := by
  rw [readItems, hread]
  simp only [hleft]

theorem readMembers_last {name : String} {json : Json} {before quoted after cs tail left rest : List Char}
    {fuel depth : Nat} (hbefore : Gap before) (hquoted : SpellsText name.toList quoted) (hafter : Gap after)
    (hread : readValue fuel depth (cs ++ tail) = some (json, left)) (hleft : skipGaps left = '\x7d' :: rest) :
    readMembers (fuel + 1) depth (before ++ '\x22' :: (quoted ++ '\x22' :: (after ++ ':' :: (cs ++ tail)))) =
      some ([(name, json)], rest) := by
  rw [readMembers, skipGaps_append hbefore, skipGaps_cons rfl]
  simp only [hquoted.readString_eq, skipGaps_colon hafter, hread, hleft, String.ofList_toList]

theorem readMembers_more {name : String} {json : Json} {before quoted after cs tail left more : List Char}
    {fuel depth : Nat} (hbefore : Gap before) (hquoted : SpellsText name.toList quoted) (hafter : Gap after)
    (hread : readValue fuel depth (cs ++ tail) = some (json, left)) (hleft : skipGaps left = ',' :: more) :
    readMembers (fuel + 1) depth (before ++ '\x22' :: (quoted ++ '\x22' :: (after ++ ':' :: (cs ++ tail)))) =
      (readMembers fuel depth more).map fun (members, rest) => ((name, json) :: members, rest) := by
  rw [readMembers, skipGaps_append hbefore, skipGaps_cons rfl]
  simp only [hquoted.readString_eq, skipGaps_colon hafter, hread, hleft, String.ofList_toList]

theorem Spells.exists_head {part : Part} {cs : List Char} (h : Spells part cs) (rest : List Char) :
    ∃ c tail, skipGaps (cs ++ rest) = c :: tail ∧ c ≠ ']' ∧ c ≠ '\x7d' := by
  induction h generalizing rest with
  | padded hbefore _ _ ih =>
    rw [List.append_assoc, List.append_assoc, skipGaps_append hbefore]
    exact ih _
  | nullWord => exact ⟨'n', _, rfl, by decide, by decide⟩
  | trueWord => exact ⟨'t', _, rfl, by decide, by decide⟩
  | falseWord => exact ⟨'f', _, rfl, by decide, by decide⟩
  | number hnumber =>
    obtain ⟨c, tail, heq, hc⟩ := hnumber.exists_head rest
    rw [heq, skipGaps_cons hc.not_gap]
    exact ⟨c, tail, rfl, hc.ne (by decide), hc.ne (by decide)⟩
  | string => exact ⟨'\x22', _, rfl, by decide, by decide⟩
  | emptyArray | array => exact ⟨'[', _, rfl, by decide, by decide⟩
  | emptyObject | object => exact ⟨'\x7b', _, rfl, by decide, by decide⟩
  | item _ ih => exact ih rest
  | moreItems _ _ ih _ =>
    rw [List.append_assoc]
    exact ih _
  | member hbefore | moreMembers hbefore =>
    simp only [List.append_assoc, List.cons_append]
    rw [skipGaps_append hbefore, skipGaps_cons rfl]
    exact ⟨'\x22', _, rfl, by decide, by decide⟩

namespace Part.ReadFrom
variable {depth : Nat} {json : Json} {cs : List Char}

/-- Behind a value the reader stands before the character that comes next. -/
theorem next (h : (value json).ReadFrom depth cs) {c : Char} (hgap : isGap c = false)
    (hends : c.isDigit = false ∧ c ≠ '.' ∧ c ≠ 'e' ∧ c ≠ 'E') (fuel : Nat) (hfuel : 2 * cs.length ≤ fuel)
    (more : List Char) :
    ∃ left, readValue (fuel + 1) depth (cs ++ c :: more) = some (json, left) ∧ skipGaps left = c :: more := by
  obtain ⟨left, hread, hleft⟩ := h fuel (c :: more) hfuel (Ends.cons hends)
  exact ⟨left, hread, hleft.trans (skipGaps_cons hgap more)⟩

theorem padded {before after : List Char} (hbefore : Gap before) (h : (value json).ReadFrom depth cs)
    (hafter : Gap after) : (value json).ReadFrom depth (before ++ cs ++ after) := by
  intro fuel rest hfuel hends
  rw [List.length_append, List.length_append] at hfuel
  obtain ⟨left, hread, hleft⟩ := h fuel (after ++ rest) (by omega) (hends.append hafter)
  refine ⟨left, ?_, hleft.trans (skipGaps_append hafter rest)⟩
  rw [← readValue_skipGaps, List.append_assoc, List.append_assoc, skipGaps_append hbefore, readValue_skipGaps, hread]

/-- A word, or a number. -/
theorem plain (h : ∀ rest, Ends rest → ∃ c tail, cs ++ rest = c :: tail ∧ isGap c = false ∧
    (c ≠ '\x22' ∧ c ≠ '[' ∧ c ≠ '\x7b') ∧ readPlain (c :: tail) = some (json, rest)) :
    (value json).ReadFrom depth cs := by
  intro fuel rest _ hends
  obtain ⟨c, tail, heq, hgap, hc, hread⟩ := h rest hends
  refine ⟨rest, ?_, rfl⟩
  rw [heq, readValue_plain hgap hc, hread]

theorem number {n : JsonNumber} (h : SpellsNumber n cs) (finite : n.isFinite = true) :
    (value (.number n)).ReadFrom depth cs := by
  refine plain fun rest hends => ?_
  obtain ⟨c, tail, heq, hc⟩ := h.exists_head rest
  have hread := h.readNumber_eq hends finite
  refine ⟨c, tail, heq, hc.not_gap, ⟨hc.ne (by decide), hc.ne (by decide), hc.ne (by decide)⟩, ?_⟩
  rw [readPlain_number ⟨hc.ne (by decide), hc.ne (by decide), hc.ne (by decide)⟩, ← heq, hread]

theorem string {text : String} (h : SpellsText text.toList cs) :
    (value (.string text)).ReadFrom depth ('\x22' :: cs ++ ['\x22']) := by
  intro fuel rest _ _
  refine ⟨rest, ?_, rfl⟩
  simp only [List.cons_append, List.append_assoc, List.nil_append]
  rw [readValue.eq_2 _ _ _ _ (skipGaps_cons (by decide) _), h.readString_eq, Option.map_some]
  simp only [String.ofList_toList]

theorem emptyArray {gap : List Char} (h : Gap gap) :
    (value (.array [])).ReadFrom (depth + 1) ('[' :: gap ++ [']']) := by
  intro fuel rest _ _
  refine ⟨rest, ?_, rfl⟩
  simp only [List.cons_append, List.append_assoc, List.nil_append]
  rw [readValue.eq_5 _ _ _ _ (skipGaps_cons (by decide) _), skipGaps_append h, skipGaps_cons (by decide)]
  rfl

theorem array {list : List Json} (hspells : Spells (.items list) cs) (h : (items list).ReadFrom depth cs) :
    (value (.array list)).ReadFrom (depth + 1) ('[' :: cs ++ [']']) := by
  intro fuel rest hfuel _
  simp only [List.length_append, List.length_cons, List.length_nil] at hfuel
  obtain ⟨fuel, rfl⟩ := Nat.exists_eq_add_of_le' (show 2 ≤ fuel by omega)
  obtain ⟨c, tail, hhead, hc, -⟩ := hspells.exists_head (']' :: rest)
  refine ⟨rest, ?_, rfl⟩
  simp only [List.cons_append, List.append_assoc, List.nil_append]
  exact readValue_array (h fuel rest (by omega)) hhead hc

theorem emptyObject {gap : List Char} (h : Gap gap) :
    (value (.object [])).ReadFrom (depth + 1) ('\x7b' :: gap ++ ['\x7d']) := by
  intro fuel rest _ _
  refine ⟨rest, ?_, rfl⟩
  simp only [List.cons_append, List.append_assoc, List.nil_append]
  rw [readValue.eq_6 _ _ _ _ (skipGaps_cons (by decide) _), skipGaps_append h, skipGaps_cons (by decide)]
  rfl

theorem object {list : List (String × Json)} (hspells : Spells (.members list) cs)
    (h : (members list).ReadFrom depth cs) :
    (value (.object list)).ReadFrom (depth + 1) ('\x7b' :: cs ++ ['\x7d']) := by
  intro fuel rest hfuel _
  simp only [List.length_append, List.length_cons, List.length_nil] at hfuel
  obtain ⟨fuel, rfl⟩ := Nat.exists_eq_add_of_le' (show 2 ≤ fuel by omega)
  obtain ⟨c, tail, hhead, -, hc⟩ := hspells.exists_head ('\x7d' :: rest)
  refine ⟨rest, ?_, rfl⟩
  simp only [List.cons_append, List.append_assoc, List.nil_append]
  exact readValue_object (h fuel rest (by omega)) hhead hc

theorem item (h : (value json).ReadFrom depth cs) : (items [json]).ReadFrom depth cs := by
  intro fuel rest hfuel
  obtain ⟨left, hread, hleft⟩ := h.next (c := ']') rfl (by decide) fuel hfuel rest
  exact readItems_last hread hleft

theorem moreItems {list : List Json} {more : List Char} (h : (value json).ReadFrom depth cs)
    (hmore : (items list).ReadFrom depth more) : (items (json :: list)).ReadFrom depth (cs ++ ',' :: more) := by
  intro fuel rest hfuel
  simp only [List.length_append, List.length_cons] at hfuel
  obtain ⟨fuel, rfl⟩ := Nat.exists_eq_add_of_le' (show 1 ≤ fuel by omega)
  obtain ⟨left, hread, hleft⟩ := h.next (c := ',') rfl (by decide) (fuel + 1) (by omega) (more ++ ']' :: rest)
  simp only [List.cons_append, List.append_assoc]
  rw [readItems_more hread hleft, hmore fuel rest (by omega), Option.map_some]

section
variable {name : String} {before quoted after : List Char}

theorem member (hbefore : Gap before) (hquoted : SpellsText name.toList quoted) (hafter : Gap after)
    (h : (value json).ReadFrom depth cs) :
    (members [(name, json)]).ReadFrom depth (before ++ '\x22' :: quoted ++ '\x22' :: after ++ ':' :: cs) := by
  intro fuel rest hfuel
  simp only [List.length_append, List.length_cons] at hfuel
  obtain ⟨left, hread, hleft⟩ := h.next (c := '\x7d') rfl (by decide) fuel (by omega) rest
  simp only [List.cons_append, List.append_assoc]
  exact readMembers_last hbefore hquoted hafter hread hleft

theorem moreMembers {list : List (String × Json)} {more : List Char} (hbefore : Gap before)
    (hquoted : SpellsText name.toList quoted) (hafter : Gap after) (h : (value json).ReadFrom depth cs)
    (hmore : (members list).ReadFrom depth more) :
    (members ((name, json) :: list)).ReadFrom depth
      (before ++ '\x22' :: quoted ++ '\x22' :: after ++ ':' :: cs ++ ',' :: more) := by
  intro fuel rest hfuel
  simp only [List.length_append, List.length_cons] at hfuel
  obtain ⟨fuel, rfl⟩ := Nat.exists_eq_add_of_le' (show 1 ≤ fuel by omega)
  obtain ⟨left, hread, hleft⟩ := h.next (c := ',') rfl (by decide) (fuel + 1) (by omega) (more ++ '\x7d' :: rest)
  simp only [List.cons_append, List.append_assoc]
  rw [readMembers_more hbefore hquoted hafter hread hleft, hmore fuel rest (by omega), Option.map_some]

end

end Part.ReadFrom

/-- The reader finds every part that is within its limits, however it is spelled. -/
theorem Spells.read {part : Part} {cs : List Char} (h : Spells part cs) {depth : Nat} (fits : part.Fits depth) :
    part.ReadFrom depth cs := by
  -- The limits shrink by one where a container opens, so the depth varies along the induction.
  induction h generalizing depth with
  | padded hbefore _ hafter ih => exact (ih fits).padded hbefore hafter
  | nullWord => exact .plain fun rest _ => ⟨'n', _, rfl, rfl, by decide, rfl⟩
  | trueWord => exact .plain fun rest _ => ⟨'t', _, rfl, rfl, by decide, rfl⟩
  | falseWord => exact .plain fun rest _ => ⟨'f', _, rfl, rfl, by decide, rfl⟩
  | number hnumber =>
    cases fits with
    | number finite => exact .number hnumber finite
  | string htext => exact .string htext
  | emptyArray hgap =>
    cases fits
    exact .emptyArray hgap
  | array hitems ih =>
    cases fits with
    | array hfits => exact (ih hfits).array hitems
  | emptyObject hgap =>
    cases fits
    exact .emptyObject hgap
  | object hmembers ih =>
    cases fits with
    | object hfits => exact (ih hfits).object hmembers
  | item _ ih => exact (ih (fits _ List.mem_cons_self)).item
  | moreItems _ _ ih ihmore =>
    obtain ⟨hjson, hitems⟩ := List.forall_mem_cons.mp fits
    exact (ih hjson).moreItems (ihmore hitems)
  | member hbefore hquoted hafter _ ih => exact (ih (fits _ List.mem_cons_self)).member hbefore hquoted hafter
  | moreMembers hbefore hquoted hafter _ _ ih ihmore =>
    obtain ⟨hjson, hmembers⟩ := List.forall_mem_cons.mp fits
    exact (ih hjson).moreMembers hbefore hquoted hafter (ihmore hmembers)

theorem mem_shortEscapes {c letter : Char} (h : shortEscapeOf? c = some letter) : (letter, c) ∈ shortEscapes := by
  unfold shortEscapeOf? at h
  split at h <;> cases h <;> decide

theorem spells_writeChar (c : Char) : SpellsChar c (writeChar c) := by
  unfold writeChar
  split
  next letter hletter => exact .short (mem_shortEscapes hletter)
  next hnone =>
    split
    next hcontrol =>
      refine .unit (by omega) (.digits ?_ ?_ ?_ (.inl rfl))
      · rw [Nat.div_eq_of_lt (by omega)]
        exact .inl rfl
      · rw [Nat.div_eq_of_lt (by omega)]
        exact .inl rfl
      · rw [Nat.mod_eq_of_lt (by omega)]
        exact .inl rfl
    next hprintable =>
      refine .plain (by omega) ?_ ?_
      · rintro rfl
        cases hnone
      · rintro rfl
        cases hnone

theorem spells_text (text : List Char) : SpellsText text (text.flatMap writeChar) := by
  induction text with
  | nil => exact .nil
  | cons c text ih => exact .cons (spells_writeChar c) ih

theorem spells_number (n : JsonNumber) : SpellsNumber n n.write := by
  obtain ⟨negative, whole, fraction, exponent⟩ := n
  refine .number ?_ ?_
  · cases fraction with
    | nil => exact .absent
    | cons d digits => exact .present (by simp)
  · rcases exponent with _ | power | power
    · exact .absent
    · exact .positive 0 power (.inl rfl) (.inl rfl)
    · exact .negative 0 (power + 1) (.inl rfl)

mutual

theorem spells_write : (json : Json) → Spells (.value json) json.write
  | .null => .nullWord
  | .bool true => .trueWord
  | .bool false => .falseWord
  | .number n => .number (spells_number n)
  | .string text => .string (spells_text text.toList)
  | .array [] => @Spells.emptyArray [] nofun
  | .array (item :: items) => .array (spells_writeItems (item :: items) nofun)
  | .object [] => @Spells.emptyObject [] nofun
  | .object (member :: members) => .object (spells_writeMembers (member :: members) nofun)

theorem spells_writeItems : (items : List Json) → items ≠ [] → Spells (.items items) (writeItems items)
  | [], h => absurd rfl h
  | [item], _ => .item (spells_write item)
  | item :: next :: items, _ => .moreItems (spells_write item) (spells_writeItems (next :: items) nofun)

theorem spells_writeMembers : (members : List (String × Json)) → members ≠ [] →
    Spells (.members members) (writeMembers members)
  | [], h => absurd rfl h
  | [(name, json)], _ => @Spells.member name json [] _ [] _ nofun (spells_text name.toList) nofun (spells_write json)
  | (name, json) :: next :: members, _ =>
    @Spells.moreMembers name json (next :: members) [] _ [] _ _ nofun (spells_text name.toList) nofun
      (spells_write json) (spells_writeMembers (next :: members) nofun)

end

/-- No control character is in a text. -/
def Printable (cs : List Char) : Prop := ∀ c ∈ cs, 0x20 ≤ c.toNat

theorem Printable.append {cs more : List Char} (h : Printable cs) (hmore : Printable more) : Printable (cs ++ more) :=
  fun c hc => (List.mem_append.mp hc).elim (h c) (hmore c)

theorem Printable.cons {c : Char} {cs : List Char} (hc : 0x20 ≤ c.toNat) (h : Printable cs) : Printable (c :: cs) :=
  List.forall_mem_cons.mpr ⟨hc, h⟩

theorem printable_digits (digits : List (Fin 10)) : Printable (digits.map digitChar) := by
  have hdigit : ∀ d, 0x20 ≤ (digitChar d).toNat := by decide
  intro c hc
  obtain ⟨d, -, rfl⟩ := List.mem_map.mp hc
  exact hdigit d

theorem printable_toDigits (n : Nat) : Printable (Nat.toDigits 10 n) := by
  obtain ⟨digits, hdigits, -⟩ := exists_digits n
  rw [hdigits]
  exact printable_digits digits

theorem printable_writeChar (c : Char) : Printable (writeChar c) := by
  have hhex : ∀ n < 16, 0x20 ≤ n.digitChar.toNat := by decide
  unfold writeChar
  split
  next letter hletter =>
    have hprintable : ∀ pair ∈ shortEscapes, 0x20 ≤ pair.1.toNat := by decide
    simpa [Printable] using hprintable _ (mem_shortEscapes hletter)
  next =>
    split
    next hcontrol =>
      have hfirst := hhex (c.toNat / 16) (by omega)
      have hlast := hhex (c.toNat % 16) (by omega)
      simpa [Printable] using ⟨hfirst, hlast⟩
    next hprintable => simpa [Printable] using hprintable

theorem printable_writeString (text : String) : Printable (writeString text) := by
  refine .append (.cons (by decide) fun c hc => ?_) (by simp [Printable])
  obtain ⟨d, -, hd⟩ := List.mem_flatMap.mp hc
  exact printable_writeChar d c hd

theorem printable_number (n : JsonNumber) : Printable n.write := by
  obtain ⟨negative, whole, fraction, exponent⟩ := n
  refine .append (.append (.append ?_ (printable_toDigits whole)) ?_) ?_
  · cases negative <;> simp [Printable]
  · cases fraction with
    | nil => nofun
    | cons d digits => exact .cons (by decide) (printable_digits (d :: digits))
  · rcases exponent with _ | power | power
    · nofun
    · exact .cons (by decide) (printable_toDigits power)
    · exact .cons (by decide) (.cons (by decide) (printable_toDigits (power + 1)))

mutual

theorem printable_write : (json : Json) → Printable json.write
  | .null => by simp [Printable, write]
  | .bool true => by simp [Printable, write]
  | .bool false => by simp [Printable, write]
  | .number n => printable_number n
  | .string text => printable_writeString text
  | .array items => .append (.cons (by decide) (printable_writeItems items)) (.cons (by decide) nofun)
  | .object members => .append (.cons (by decide) (printable_writeMembers members)) (.cons (by decide) nofun)

theorem printable_writeItems : (items : List Json) → Printable (writeItems items)
  | [] => nofun
  | [item] => printable_write item
  | item :: next :: items => .append (printable_write item) (.cons (by decide) (printable_writeItems (next :: items)))

theorem printable_writeMembers : (members : List (String × Json)) → Printable (writeMembers members)
  | [] => nofun
  | [(name, json)] => .append (printable_writeString name) (.cons (by decide) (printable_write json))
  | (name, json) :: next :: members =>
    .append (.append (printable_writeString name) (.cons (by decide) (printable_write json)))
      (.cons (by decide) (printable_writeMembers (next :: members)))

end

end Json
end MethodTrace
