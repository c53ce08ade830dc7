import BootImage.Number
import Mathlib.Data.List.Forall2
import Mathlib.Data.Nat.Digits.Defs
import Mathlib.Tactic.IntervalCases

/-! What number notation denotes.

    Digits denote their positional value, the highest digit first, and one sign `+` may lead them.
    Along the digits the value never falls, so a value that fits in 64 bits at the end has fitted
    all the way: the digits can be read one by one. The main statement is
    `Number.readUnsigned_eq_ok_iff`.

        "+0101"   -->   digits 0, 1, 0, 1   -->   101 -/

namespace BootImage.Number

/-- The characters are digits of the radix with these values. -/
def DigitValues (radix : Nat) : List Char → List Nat → Prop :=
  List.Forall₂ fun c v => digit? radix c = some v

/-- The digits have `n` as their positional value, and it fits in 64 bits. -/
def HasValue (radix : Nat) (digits : List Char) (n : Nat) : Prop :=
  ∃ values, DigitValues radix digits values ∧ n = Nat.ofDigits radix values.reverse ∧ n < 2 ^ 64

/-- The text denotes `n`: it is at least one digit, after at most one sign. -/
def Denotes (radix : Nat) (text : List Char) (n : Nat) : Prop :=
  ∃ digits, (text = digits ∨ text = '+' :: digits) ∧ digits ≠ [] ∧ HasValue radix digits n

theorem lt_of_digit? {radix : Nat} {c : Char} {v : Nat} (h : digit? radix c = some v) :
    v < radix := by
  rw [digit?, Option.ite_none_right_eq_some] at h
  obtain ⟨hlt, heq⟩ := h
  exact Option.some.inj heq ▸ hlt

/-- The sign is no digit. -/
theorem digit?_plus (radix : Nat) : digit? radix '+' = none :=
  if_neg (Nat.lt_irrefl radix)

theorem digitValues_cons_iff {radix : Nat} {c : Char} {v : Nat} (hc : digit? radix c = some v)
    {digits : List Char} {values : List Nat} :
    DigitValues radix (c :: digits) values ↔
      ∃ rest, DigitValues radix digits rest ∧ values = v :: rest := by
  rw [DigitValues, List.forall₂_cons_left_iff]
  constructor
  · rintro ⟨w, rest, hw, hrest, rfl⟩
    obtain rfl : v = w := Option.some.inj (hc.symm.trans hw)
    exact ⟨rest, hrest, rfl⟩
  · rintro ⟨rest, hrest, rfl⟩
    exact ⟨v, rest, hc, hrest, rfl⟩

theorem not_digitValues_cons {radix : Nat} {c : Char} (hc : digit? radix c = none)
    {digits : List Char} {values : List Nat} : ¬ DigitValues radix (c :: digits) values := by
  rw [DigitValues, List.forall₂_cons_left_iff]
  rintro ⟨w, -, hw, -, -⟩
  rw [hc] at hw
  cases hw

theorem DigitValues.exists_digit? {radix : Nat} {digits : List Char} {values : List Nat}
    (h : DigitValues radix digits values) : ∀ c ∈ digits, ∃ v, digit? radix c = some v := by
  induction h with
  | nil => exact fun c hc => absurd hc List.not_mem_nil
  | cons hd _ ih => exact List.forall_mem_cons.2 ⟨⟨_, hd⟩, ih⟩

/-- Digits have their values only. -/
theorem DigitValues.eq {radix : Nat} {digits : List Char} {values values' : List Nat}
    (h : DigitValues radix digits values) (h' : DigitValues radix digits values') :
    values = values' := by
  induction h generalizing values' with
  | nil => exact (List.forall₂_nil_left_iff.1 h').symm
  | cons hc _ ih =>
    obtain ⟨rest, hrest, rfl⟩ := (digitValues_cons_iff hc).1 h'
    rw [ih hrest]

/-! ### Digits that are written -/

/-- A digit is written as a character that has its value. -/
theorem digit?_digitChar {radix v : Nat} (hradix : radix ≤ 16) (hv : v < radix) :
    digit? radix (Nat.digitChar v) = some v := by
  have hlt : v < 16 := Nat.lt_of_lt_of_le hv hradix
  interval_cases v <;> simp [digit?, Nat.digitChar, hv]

/-- The digits that a number is written with have it as their positional value. -/
theorem exists_digitValues_toDigits {radix : Nat} (hone : 1 < radix) (hradix : radix ≤ 16)
    (n : Nat) : ∃ values, DigitValues radix (Nat.toDigits radix n) values ∧
      Nat.ofDigits radix values.reverse = n := by
  induction n using Nat.strong_induction_on with
  | h n ih =>
    rcases Nat.lt_or_ge n radix with hlt | hge
    · refine ⟨[n], ?_, by simp⟩
      rw [Nat.toDigits_of_lt_base hlt]
      exact .cons (digit?_digitChar hradix hlt) .nil
    · obtain ⟨values, hvalues, hn⟩ := ih (n / radix) (Nat.div_lt_self (by omega) hone)
      refine ⟨values ++ [n % radix], ?_, ?_⟩
      · rw [Nat.toDigits_of_base_le hone hge]
        exact List.rel_append hvalues
          (.cons (digit?_digitChar hradix (Nat.mod_lt _ (by omega))) .nil)
      · rw [List.reverse_append, List.reverse_singleton, List.singleton_append,
          Nat.ofDigits_cons, hn, Nat.mod_add_div]

/-- Numbers that are written alike are the same. -/
theorem toDigits_inj {radix : Nat} (hone : 1 < radix) (hradix : radix ≤ 16) {m n : Nat} :
    Nat.toDigits radix m = Nat.toDigits radix n ↔ m = n := by
  refine ⟨fun h => ?_, congrArg _⟩
  obtain ⟨values, hvalues, rfl⟩ := exists_digitValues_toDigits hone hradix m
  obtain ⟨values', hvalues', rfl⟩ := exists_digitValues_toDigits hone hradix n
  rw [hvalues.eq (h ▸ hvalues')]

/-! ### Digits one by one -/

/-- What `value` is worth after more digits. -/
def extend (radix value : Nat) (values : List Nat) : Nat :=
  values.foldl (fun acc v => acc * radix + v) value

/-- The positional value is reached from zero. -/
theorem extend_zero (radix : Nat) (values : List Nat) :
    extend radix 0 values = Nat.ofDigits radix values.reverse := by
  rw [Nat.ofDigits_eq_foldr, List.foldr_reverse, extend]
  congr 1
  funext acc v
  rw [Nat.cast_id, Nat.mul_comm, Nat.add_comm]

/-- More digits are never worth less. -/
theorem le_extend {radix : Nat} (hradix : 0 < radix) : ∀ (values : List Nat) (value : Nat),
    value ≤ extend radix value values
  | [], value => Nat.le_refl value
  | v :: values, value => calc
      value ≤ value * radix := Nat.le_mul_of_pos_right value hradix
      _ ≤ value * radix + v := Nat.le_add_right _ v
      _ ≤ extend radix (value * radix + v) values := le_extend hradix values _

/-- More digits take `value` to `n`, and that fits in 64 bits. -/
def ExtendsTo (radix value : Nat) (digits : List Char) (n : Nat) : Prop :=
  ∃ values, DigitValues radix digits values ∧ n = extend radix value values ∧ n < 2 ^ 64

theorem hasValue_iff_extendsTo {radix n : Nat} {digits : List Char} :
    HasValue radix digits n ↔ ExtendsTo radix 0 digits n := by
  simp only [HasValue, ExtendsTo, extend_zero]

theorem extendsTo_cons_iff {radix value n v : Nat} {c : Char} (hc : digit? radix c = some v)
    {digits : List Char} :
    ExtendsTo radix value (c :: digits) n ↔ ExtendsTo radix (value * radix + v) digits n := by
  constructor
  · rintro ⟨_, hvalues, hn⟩
    obtain ⟨rest, hrest, rfl⟩ := (digitValues_cons_iff hc).1 hvalues
    exact ⟨rest, hrest, hn⟩
  · rintro ⟨rest, hrest, hn⟩
    exact ⟨v :: rest, (digitValues_cons_iff hc).2 ⟨rest, hrest, rfl⟩, hn⟩

/-- A value that is too large stays so. -/
theorem not_extendsTo_of_le {radix value n : Nat} (hradix : 0 < radix) (hvalue : 2 ^ 64 ≤ value)
    {digits : List Char} : ¬ ExtendsTo radix value digits n := by
  rintro ⟨values, -, rfl, hlt⟩
  exact absurd hlt (Nat.not_lt.2 (hvalue.trans (le_extend hradix values value)))

/-- Digits are read where all are digits and their value fits in 64 bits. -/
theorem readDigits_eq_ok_iff {radix n : Nat} : ∀ {digits : List Char} {value : Nat},
    value < 2 ^ 64 → (readDigits radix digits value = .ok n ↔ ExtendsTo radix value digits n)
  | [], value, hvalue => by
    simp only [readDigits, Except.ok.injEq, ExtendsTo, DigitValues, List.forall₂_nil_left_iff,
      exists_eq_left]
    constructor
    · rintro rfl
      exact ⟨rfl, hvalue⟩
    · rintro ⟨rfl, -⟩
      rfl
  | c :: digits, value, hvalue => by
    rw [readDigits]
    cases hc : digit? radix c with
    | none => simp [ExtendsTo, not_digitValues_cons hc]
    | some v =>
      rw [extendsTo_cons_iff hc]
      dsimp only
      split_ifs with hfits
      · exact readDigits_eq_ok_iff hfits
      · have hradix : 0 < radix := Nat.zero_lt_of_lt (lt_of_digit? hc)
        exact iff_of_false (by simp) (not_extendsTo_of_le hradix (Nat.not_lt.1 hfits))

/-! ### With a sign -/

theorem not_hasValue_plus {radix n : Nat} {digits : List Char} :
    ¬ HasValue radix ('+' :: digits) n := by
  rintro ⟨values, hvalues, -⟩
  exact not_digitValues_cons (digit?_plus radix) hvalues

/-- Behind a sign stand the digits. -/
theorem denotes_plus_iff {radix n : Nat} {digits : List Char} :
    Denotes radix ('+' :: digits) n ↔ digits ≠ [] ∧ HasValue radix digits n := by
  constructor
  · rintro ⟨_, rfl | h, hne, hvalue⟩
    · exact absurd hvalue not_hasValue_plus
    · obtain rfl := List.tail_eq_of_cons_eq h
      exact ⟨hne, hvalue⟩
  · rintro ⟨hne, hvalue⟩
    exact ⟨digits, .inr rfl, hne, hvalue⟩

/-- Without a sign, all of the text is digits. -/
theorem denotes_iff_of_ne_plus {radix n : Nat} {text : List Char}
    (h : ∀ digits, text ≠ '+' :: digits) :
    Denotes radix text n ↔ text ≠ [] ∧ HasValue radix text n := by
  constructor
  · rintro ⟨digits, rfl | heq, hvalue⟩
    · exact hvalue
    · exact absurd heq (h digits)
  · intro hvalue
    exact ⟨text, .inl rfl, hvalue⟩

/-- Exactly what denotes a number is read, as the number that it denotes. -/
theorem readUnsigned_eq_ok_iff {radix n : Nat} {text : List Char} :
    readUnsigned radix text = .ok n ↔ Denotes radix text n := by
  have hread (digits : List Char) :
      readDigits radix digits 0 = .ok n ↔ HasValue radix digits n := by
    rw [hasValue_iff_extendsTo]
    exact readDigits_eq_ok_iff (by decide)
  rw [readUnsigned.eq_def]
  split
  · simp [denotes_iff_of_ne_plus]
  · simp [denotes_plus_iff]
  · next digits hne =>
    rw [hread, denotes_plus_iff]
    exact (and_iff_right hne).symm
  · next hne _ hplus =>
    rw [hread, denotes_iff_of_ne_plus hplus]
    exact (and_iff_right hne).symm

end BootImage.Number
