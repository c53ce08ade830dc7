import BootImage.Word
import Mathlib.Algebra.Group.Nat.Defs

/-! Words as natural numbers.

    On a power of two, the mask of a word is a remainder: an aligned word is a multiple, and
    rounding up gives the least multiple at or above. Every statement about addresses rests on
    these, and is made about natural numbers, where nothing wraps.

        n               n + (a - 1)
        |----·----·----·----|          a - 1 more reaches the next multiple, but not the one after
             roundUp n a -/

namespace BootImage.Word

/-- The least multiple of `a` at or above `n`. -/
def roundUp (n a : Nat) : Nat := (n + (a - 1)) / a * a

theorem le_roundUp (n : Nat) {a : Nat} (ha : 0 < a) : n ≤ roundUp n a := by
  have h := Nat.div_add_mod (n + (a - 1)) a
  have hlt := Nat.mod_lt (n + (a - 1)) ha
  rw [Nat.mul_comm] at h
  unfold roundUp
  omega

theorem roundUp_lt (n : Nat) {a : Nat} (ha : 0 < a) : roundUp n a < n + a := by
  have h := Nat.div_mul_le_self (n + (a - 1)) a
  unfold roundUp
  omega

theorem dvd_roundUp (n a : Nat) : a ∣ roundUp n a := Nat.dvd_mul_left a _

/-- A multiple is already rounded. -/
theorem roundUp_of_dvd {n a : Nat} (ha : 0 < a) (h : a ∣ n) : roundUp n a = n := by
  obtain ⟨q, rfl⟩ := h
  have hq : (a * q + (a - 1)) / a = q := by
    rw [Nat.add_comm, Nat.add_mul_div_left _ _ ha, Nat.div_eq_of_lt (by omega), Nat.zero_add]
  rw [roundUp, hq, Nat.mul_comm]

/-- Rounding keeps the multiples of everything that divides `a` or is divided by it. -/
theorem dvd_roundUp_of_dvd {n a b : Nat} (ha : 0 < a) (hab : a ∣ b ∨ b ∣ a) (h : b ∣ n) :
    b ∣ roundUp n a := by
  rcases hab with hab | hba
  · rwa [roundUp_of_dvd ha (Nat.dvd_trans hab h)]
  · exact Nat.dvd_trans hba (dvd_roundUp n a)

theorem roundUp_le_roundUp {m n : Nat} (h : m ≤ n) (a : Nat) : roundUp m a ≤ roundUp n a :=
  Nat.mul_le_mul_right a (Nat.div_le_div_right (Nat.add_le_add_right h (a - 1)))

/-! ### Differences of words in order -/

theorem toNat_add_sub {first last : UInt64} (h : first ≤ last) :
    first.toNat + (last - first).toNat = last.toNat := by
  rw [UInt64.toNat_sub_of_le _ _ h]
  exact Nat.add_sub_cancel' (UInt64.le_iff_toNat_le.1 h)

theorem sub_pos_iff {first last : UInt64} (h : first ≤ last) :
    0 < last - first ↔ first < last := by
  have hsum := toNat_add_sub h
  rw [UInt64.lt_iff_toNat_lt, UInt64.lt_iff_toNat_lt, UInt64.toNat_zero]
  omega

/-- A difference of words in order is a multiple if that of the natural numbers is. -/
theorem sub_mod_eq_zero_iff {first last : UInt64} (h : first ≤ last) (a : UInt64) :
    (last - first) % a = 0 ↔ a.toNat ∣ last.toNat - first.toNat := by
  rw [← UInt64.toNat_inj, UInt64.toNat_mod, UInt64.toNat_sub_of_le _ _ h, Nat.dvd_iff_mod_eq_zero]
  rfl

/-! ### Powers of two and their masks -/

theorem toNat_pred {a : UInt64} (ha : 0 < a.toNat) : (a - 1).toNat = a.toNat - 1 :=
  UInt64.toNat_sub_of_le a 1 (UInt64.le_iff_toNat_le.2 ha)

/-- Words with one set bit are the powers of two. -/
theorem isPowerOfTwo_iff_toNat (a : UInt64) : isPowerOfTwo a = true ↔ a.toNat.isPowerOfTwo := by
  rcases Nat.eq_zero_or_pos a.toNat with hzero | hpos
  · obtain rfl : a = 0 := UInt64.toNat_inj.1 hzero
    simp [isPowerOfTwo, Nat.not_isPowerOfTwo_zero]
  · have hne : a ≠ 0 := fun h => by simp [h] at hpos
    rw [← Nat.and_sub_one_eq_zero_iff_isPowerOfTwo (by omega), isPowerOfTwo, Bool.and_eq_true,
      bne_iff_ne, beq_iff_eq, ← UInt64.toNat_inj, UInt64.toNat_and, toNat_pred hpos]
    simp [hne]

theorem pos_of_isPowerOfTwo {a : UInt64} (ha : isPowerOfTwo a = true) : 0 < a.toNat := by
  obtain ⟨k, hk⟩ := (isPowerOfTwo_iff_toNat a).1 ha
  rw [hk]
  exact Nat.two_pow_pos k

/-- The largest power of two has the highest bit. -/
theorem toNat_le_of_isPowerOfTwo {a : UInt64} (ha : isPowerOfTwo a = true) :
    a.toNat ≤ 2 ^ 63 := by
  obtain ⟨k, hk⟩ := (isPowerOfTwo_iff_toNat a).1 ha
  have hlt := a.toNat_lt
  rw [hk] at hlt ⊢
  exact Nat.pow_le_pow_right (by decide)
    (Nat.le_of_lt_succ ((Nat.pow_lt_pow_iff_right (by decide)).1 hlt))

/-- Of two powers of two, the smaller divides the larger. -/
theorem dvd_of_le {a b : UInt64} (ha : isPowerOfTwo a = true) (hb : isPowerOfTwo b = true)
    (h : a ≤ b) : a.toNat ∣ b.toNat := by
  obtain ⟨j, hj⟩ := (isPowerOfTwo_iff_toNat a).1 ha
  obtain ⟨k, hk⟩ := (isPowerOfTwo_iff_toNat b).1 hb
  rw [UInt64.le_iff_toNat_le, hj, hk] at h
  rw [hj, hk]
  exact Nat.pow_dvd_pow 2 ((Nat.pow_le_pow_iff_right (by decide)).1 h)

theorem dvd_or_dvd {a b : UInt64} (ha : isPowerOfTwo a = true) (hb : isPowerOfTwo b = true) :
    a.toNat ∣ b.toNat ∨ b.toNat ∣ a.toNat :=
  (UInt64.le_total a b).imp (dvd_of_le ha hb) (dvd_of_le hb ha)

/-- Aligned words are multiples. -/
theorem isAligned_iff_dvd (v : UInt64) {a : UInt64} (ha : isPowerOfTwo a = true) :
    isAligned v a = true ↔ a.toNat ∣ v.toNat := by
  obtain ⟨k, hk⟩ := (isPowerOfTwo_iff_toNat a).1 ha
  rw [isAligned, beq_iff_eq, ← UInt64.toNat_inj, UInt64.toNat_and,
    toNat_pred (pos_of_isPowerOfTwo ha), hk, Nat.and_two_pow_sub_one_eq_mod,
    Nat.dvd_iff_mod_eq_zero]
  rfl

/-- Clearing the bits under a power of two leaves the multiple at or below the word. -/
theorem toNat_and_not_mask (v : UInt64) {a : UInt64} (ha : isPowerOfTwo a = true) :
    (v &&& ~~~(a - 1)).toNat = v.toNat / a.toNat * a.toNat := by
  obtain ⟨k, hk⟩ := (isPowerOfTwo_iff_toNat a).1 ha
  have hmask : (a - 1).toNat = 2 ^ k - 1 := by rw [toNat_pred (pos_of_isPowerOfTwo ha), hk]
  have hlt : 2 ^ k - 1 < 2 ^ 64 := by
    rw [← hmask]
    exact (a - 1).toNat_lt
  have hnot : (~~~(a - 1)).toNat = 2 ^ 64 - ((2 ^ k - 1) + 1) := by
    have h := UInt64.toNat_not (a - 1)
    rw [hmask, Nat.sub_sub, Nat.add_comm 1] at h
    exact h
  rw [hk, ← Nat.shiftRight_eq_div_pow, ← Nat.shiftLeft_eq]
  apply Nat.eq_of_testBit_eq
  intro i
  rw [UInt64.toNat_and, Nat.testBit_and, hnot, Nat.testBit_two_pow_sub_succ hlt,
    Nat.testBit_two_pow_sub_one, Nat.testBit_shiftLeft, Nat.testBit_shiftRight]
  -- below `k` both sides are clear, and from bit 64 on the word has no bits
  rcases Nat.lt_or_ge i k with hik | hik
  · simp [hik, Nat.not_le.2 hik]
  · rcases Nat.lt_or_ge i 64 with hi | hi
    · simp [hi, hik, Nat.not_lt.2 hik, Nat.add_sub_cancel' hik]
    · have hv : v.toNat.testBit i = false :=
        Nat.testBit_lt_two_pow (Nat.lt_of_lt_of_le v.toNat_lt (Nat.pow_le_pow_right (by decide) hi))
      simp [hv, Nat.add_sub_cancel' hik]

/-- What rounding up answers is the least multiple at or above the word. -/
theorem toNat_of_alignUp? {v a r : UInt64} (ha : isPowerOfTwo a = true)
    (h : alignUp? v a = some r) : r.toNat = roundUp v.toNat a.toNat := by
  obtain ⟨w, hw, rfl⟩ := Option.map_eq_some_iff.1 h
  rw [toNat_and_not_mask w ha, toNat_of_add?_eq_some hw, toNat_pred (pos_of_isPowerOfTwo ha),
    roundUp]

/-- In the lower half of the words, rounding up always answers. -/
theorem exists_alignUp? {v a : UInt64} (ha : isPowerOfTwo a = true) (hv : v.toNat ≤ 2 ^ 63) :
    v.toNat + (a.toNat - 1) < UInt64.size ∧ ∃ r, alignUp? v a = some r := by
  have hpos := pos_of_isPowerOfTwo ha
  have hle := toNat_le_of_isPowerOfTwo ha
  have hlt : v.toNat + (a.toNat - 1) < UInt64.size := by
    simp only [UInt64.size]
    omega
  refine ⟨hlt, (v + (a - 1)) &&& ~~~(a - 1), ?_⟩
  rw [alignUp?, add?, toNat_pred hpos, if_pos hlt, Option.map_some]

/-! ### The largest of some words -/

theorem max_eq (a b : UInt64) : max a b = if a ≤ b then b else a := rfl

theorem le_max (a b : UInt64) : a ≤ max a b ∧ b ≤ max a b := by
  rw [max_eq]
  split
  · next h => exact ⟨h, UInt64.le_refl b⟩
  · next h => exact ⟨UInt64.le_refl a, UInt64.le_of_lt (UInt64.not_le.1 h)⟩

/-- The largest word is one of them. -/
theorem foldl_max_mem : ∀ (l : List UInt64) (a : UInt64), l.foldl max a ∈ a :: l
  | [], a => List.mem_singleton_self a
  | b :: l, a => by
    rw [List.foldl_cons]
    rcases List.mem_cons.1 (foldl_max_mem l (max a b)) with h | h
    · rw [h, max_eq]
      split <;> simp
    · exact List.mem_cons_of_mem _ (List.mem_cons_of_mem _ h)

/-- The largest word is at or above each of them. -/
theorem le_foldl_max : ∀ {l : List UInt64} {a : UInt64}, ∀ x ∈ a :: l, x ≤ l.foldl max a
  | [], a, x, hx => UInt64.le_of_eq (List.mem_singleton.1 hx)
  | b :: l, a, x, hx => by
    rw [List.foldl_cons]
    have hmax : max a b ≤ l.foldl max (max a b) := le_foldl_max _ List.mem_cons_self
    rcases List.mem_cons.1 hx with rfl | hx
    · exact UInt64.le_trans (le_max x b).1 hmax
    · rcases List.mem_cons.1 hx with rfl | hx
      · exact UInt64.le_trans (le_max a x).2 hmax
      · exact le_foldl_max x (List.mem_cons_of_mem _ hx)

theorem toNat_max (a b : UInt64) : (max a b).toNat = max a.toNat b.toNat := by
  rw [max_eq, Nat.max_def]
  simp only [UInt64.le_iff_toNat_le]
  split <;> rfl

/-- The largest word is the largest number. -/
theorem toNat_foldl_max (l : List UInt64) (a : UInt64) :
    (l.foldl max a).toNat = (l.map (·.toNat)).foldl max a.toNat := by
  induction l generalizing a with
  | nil => rfl
  | cons b l ih => rw [List.foldl_cons, ih, toNat_max, List.map_cons, List.foldl_cons]

end BootImage.Word
