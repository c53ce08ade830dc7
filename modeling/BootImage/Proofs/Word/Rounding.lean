import BootImage.Proofs.Word
import Mathlib.Order.Bounds.Basic

/-! Alignment by a power of two.

    A word is aligned if the alignment divides it, and it is rounded up to the least multiple at or
    above. The sum on the way is larger than that multiple, so it could leave the word where the
    multiple does not. But a power of two divides the number of words: whatever leaves the word has
    passed a multiple on the way, and nothing is answered only where the multiple is no word itself.
    The main statement is `aligns_of_isPowerOfTwo`.

        ·--------·--------·--------|        the last multiple that is a word, then 2 ^ 64
                          v        v + (a - 1) stays in the word
                            v               v + (a - 1) leaves it, and so does the multiple -/

namespace BootImage.Word

/-! ### Least multiples -/

/-- The least multiple of `a` at or above `n` is `m`. -/
def IsLeastMultiple (n a m : Nat) : Prop := IsLeast {k | a ∣ k ∧ n ≤ k} m

theorem isLeastMultiple_roundUp (n : Nat) {a : Nat} (ha : 0 < a) :
    IsLeastMultiple n a (roundUp n a) := by
  refine ⟨⟨dvd_roundUp n a, le_roundUp n ha⟩, fun k hk => ?_⟩
  calc roundUp n a
    _ ≤ roundUp k a := roundUp_le_roundUp hk.2 a
    _ = k := roundUp_of_dvd ha hk.1

/-- Rounding up is what gives the least multiple. -/
theorem isLeastMultiple_iff {n a m : Nat} (ha : 0 < a) :
    IsLeastMultiple n a m ↔ roundUp n a = m :=
  (isLeastMultiple_roundUp n ha).isLeast_iff_eq

/-- Adding the mask reaches a multiple of the alignment exactly if rounding up does. -/
theorem le_roundUp_iff_of_dvd {n a m : Nat} (ha : 0 < a) (h : a ∣ m) :
    m ≤ roundUp n a ↔ m ≤ n + (a - 1) := by
  obtain ⟨q, rfl⟩ := h
  rw [roundUp, Nat.mul_comm a q, Nat.mul_le_mul_right_iff ha, Nat.le_div_iff_mul_le ha]

/-! ### Answers -/

variable {a b v w r : UInt64}

theorem add?_eq_none_iff : add? v w = none ↔ UInt64.size ≤ v.toNat + w.toNat := by
  simp [add?]

/-- The number of words is a multiple of every power of two that is a word. -/
theorem dvd_size (ha : isPowerOfTwo a = true) : a.toNat ∣ UInt64.size := by
  obtain ⟨k, hk⟩ := (isPowerOfTwo_iff_toNat a).1 ha
  have hlt : 2 ^ k < 2 ^ 64 := hk ▸ a.toNat_lt
  rw [hk]
  exact Nat.pow_dvd_pow 2 ((Nat.pow_lt_pow_iff_right (by decide)).1 hlt).le

/-- Nothing is answered exactly if the multiple is no word. -/
theorem alignUp?_eq_none_iff (ha : isPowerOfTwo a = true) :
    alignUp? v a = none ↔ UInt64.size ≤ roundUp v.toNat a.toNat := by
  have hpos := pos_of_isPowerOfTwo ha
  rw [alignUp?, Option.map_eq_none_iff, add?_eq_none_iff, toNat_pred hpos,
    le_roundUp_iff_of_dvd hpos (dvd_size ha)]

theorem alignUp?_eq_some_iff (ha : isPowerOfTwo a = true) :
    alignUp? v a = some r ↔ r.toNat = roundUp v.toNat a.toNat := by
  refine ⟨toNat_of_alignUp? ha, fun hr => ?_⟩
  cases hanswer : alignUp? v a with
  | none =>
    -- the multiple is the word `r`
    have hsize := (alignUp?_eq_none_iff ha).1 hanswer
    exact absurd (hr ▸ r.toNat_lt) (Nat.not_lt.2 hsize)
  | some s => rw [UInt64.toNat_inj.1 (hr.trans (toNat_of_alignUp? ha hanswer).symm)]

/-- Whatever is rounded up is aligned. -/
theorem dvd_of_alignUp? (ha : isPowerOfTwo a = true) (h : alignUp? v a = some r) :
    a.toNat ∣ r.toNat := by
  rw [toNat_of_alignUp? ha h]
  exact dvd_roundUp _ _

theorem alignUp?_of_isAligned (ha : isPowerOfTwo a = true) (h : isAligned v a = true) :
    alignUp? v a = some v :=
  (alignUp?_eq_some_iff ha).2
    (roundUp_of_dvd (pos_of_isPowerOfTwo ha) ((isAligned_iff_dvd v ha).1 h)).symm

/-! ### All of it -/

/-- What an alignment promises of every word. -/
structure Aligns (a : UInt64) : Prop where
  isAligned_iff : ∀ v, isAligned v a = true ↔ a.toNat ∣ v.toNat
  /-- The answer is the least multiple, if that is a word. -/
  some_iff : ∀ v r, alignUp? v a = some r ↔ IsLeastMultiple v.toNat a.toNat r.toNat
  /-- There is none only if the least multiple is no word. -/
  none_iff : ∀ v, alignUp? v a = none ↔
    ∃ m, IsLeastMultiple v.toNat a.toNat m ∧ 2 ^ 64 ≤ m
  fixed : ∀ v, isAligned v a = true → alignUp? v a = some v
  idempotent : ∀ v r, alignUp? v a = some r → alignUp? r a = some r
  /-- What lies below a word that is rounded up is rounded up, and no higher. -/
  monotone : ∀ v w s, v ≤ w → alignUp? w a = some s → ∃ r, alignUp? v a = some r ∧ r ≤ s
  /-- What is rounded up is aligned for every smaller power of two as well. -/
  finer : ∀ b, b.toNat.isPowerOfTwo → b ≤ a → ∀ v r, alignUp? v a = some r →
    isAligned r b = true

/-- Every power of two that is a word keeps these promises. -/
theorem aligns_of_isPowerOfTwo (h : a.toNat.isPowerOfTwo) : Aligns a := by
  have ha : isPowerOfTwo a = true := (isPowerOfTwo_iff_toNat a).2 h
  have hpos := pos_of_isPowerOfTwo ha
  refine ⟨fun v => isAligned_iff_dvd v ha, fun v r => ?_, fun v => ?_,
    fun v => alignUp?_of_isAligned ha, fun v r hr => ?_, fun v w s hle hs => ?_,
    fun b hb hle v r hr => ?_⟩
  · rw [alignUp?_eq_some_iff ha, isLeastMultiple_iff hpos, eq_comm]
  · simp only [alignUp?_eq_none_iff ha, isLeastMultiple_iff hpos, exists_eq_left']
    rfl
  · exact alignUp?_of_isAligned ha ((isAligned_iff_dvd r ha).2 (dvd_of_alignUp? ha hr))
  · have hmono := roundUp_le_roundUp (UInt64.le_iff_toNat_le.1 hle) a.toNat
    rw [← toNat_of_alignUp? ha hs] at hmono
    cases hr : alignUp? v a with
    | none =>
      have hsize := (alignUp?_eq_none_iff ha).1 hr
      exact absurd s.toNat_lt (Nat.not_lt.2 (Nat.le_trans hsize hmono))
    | some r =>
      rw [← toNat_of_alignUp? ha hr] at hmono
      exact ⟨r, rfl, UInt64.le_iff_toNat_le.2 hmono⟩
  · have hb' : isPowerOfTwo b = true := (isPowerOfTwo_iff_toNat b).2 hb
    exact (isAligned_iff_dvd r hb').2 (Nat.dvd_trans (dvd_of_le hb' ha hle) (dvd_of_alignUp? ha hr))

/-- The last page of words is rounded to itself, and past its start there is no page. -/
theorem aligns_of_isPowerOfTwo_page :
    (0x1000 : UInt64).toNat.isPowerOfTwo ∧
      alignUp? 0xfffffffffffff000 0x1000 = some 0xfffffffffffff000 ∧
      alignUp? 0xfffffffffffff001 0x1000 = none ∧
      ∃ m, IsLeastMultiple 0xfffffffffffff001 0x1000 m ∧ 2 ^ 64 ≤ m := by
  have hpower : (0x1000 : UInt64).toNat.isPowerOfTwo := ⟨12, rfl⟩
  have hnone : alignUp? 0xfffffffffffff001 0x1000 = none := by decide
  exact ⟨hpower, (aligns_of_isPowerOfTwo hpower).fixed _ (by decide), hnone,
    ((aligns_of_isPowerOfTwo hpower).none_iff _).1 hnone⟩

end BootImage.Word
