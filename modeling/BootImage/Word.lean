/-! Address words.

    Addresses, sizes and alignments are 64-bit words. Sums that may leave the word answer `none`, so
    a layout is refused instead of wrapping. An alignment is a power of two `a`, and `a - 1` masks
    the bits under it: a word is aligned when the mask clears it, and rounding up adds the mask and
    then clears it.

        value      1 0 1 1 0 1 0 1
        a          0 0 0 1 0 0 0 0
        a - 1      0 0 0 0 1 1 1 1     masked bits are not zero, so value is not aligned
        alignUp?   1 1 0 0 0 0 0 0 -/

namespace BootImage.Word

/-- Exactly one bit of the word is set. -/
def isPowerOfTwo (a : UInt64) : Bool := a != 0 && a &&& (a - 1) == 0

/-- The bits under a power of two `a` are clear, that is, `a` divides `value`. -/
def isAligned (value a : UInt64) : Bool := value &&& (a - 1) == 0

/-- The sum, unless it needs a 65th bit. -/
def add? (a b : UInt64) : Option UInt64 :=
  if a.toNat + b.toNat < UInt64.size then some (a + b) else none

/-- The least multiple of a power of two `a` at or above `value`, unless it needs a 65th bit. -/
def alignUp? (value a : UInt64) : Option UInt64 :=
  (add? value (a - 1)).map (· &&& ~~~(a - 1))

/-- A sum is answered exactly if it fits in the word. -/
theorem add?_eq_some_iff {a b c : UInt64} :
    add? a b = some c ↔ a.toNat + b.toNat < UInt64.size ∧ a + b = c := by
  simp [add?]

/-- A sum that is answered is the sum of the natural numbers. -/
theorem toNat_of_add?_eq_some {a b c : UInt64} (h : add? a b = some c) :
    c.toNat = a.toNat + b.toNat := by
  obtain ⟨hlt, rfl⟩ := add?_eq_some_iff.1 h
  rw [UInt64.toNat_add]
  exact Nat.mod_eq_of_lt hlt

end BootImage.Word
