/-! Numbers in bytes.

    A number of a fixed width is written with its least significant byte first, or last where a file
    says so. A slice of a list of bytes exists only if the list holds all of it. -/

namespace BootImage.Bytes

/-- The number whose bytes stand in ascending order of weight. -/
def ofLittle : List UInt8 → Nat
  | [] => 0
  | b :: rest => b.toNat + 256 * ofLittle rest

/-- The lowest `width` bytes of a number, in ascending order of weight. -/
def little : Nat → Nat → List UInt8
  | 0, _ => []
  | width + 1, n => UInt8.ofNat n :: little width (n / 256)

/-- Which byte of a number comes first. -/
inductive Order where
  | littleEndian
  | bigEndian
  deriving DecidableEq

/-- The number that the bytes are. -/
def Order.number : Order → List UInt8 → Nat
  | .littleEndian, bytes => ofLittle bytes
  | .bigEndian, bytes => ofLittle bytes.reverse

/-- The `size` bytes from `offset` on, if all of them are there. -/
def slice? (bytes : List UInt8) (offset size : Nat) : Option (List UInt8) :=
  if offset + size ≤ bytes.length then some ((bytes.drop offset).take size) else none

/-- The 32-bit word at an offset. -/
def word? (bytes : List UInt8) (offset : Nat) : Option UInt32 :=
  (slice? bytes offset 4).map fun b => UInt32.ofNat (ofLittle b)

/-- The four bytes of a word. -/
def ofWord (w : UInt32) : List UInt8 := little 4 w.toNat

/-- Numbers of four bytes each, one after the other. -/
def words (ns : List Nat) : List UInt8 := ns.flatMap (little 4)

/-- Bytes with zeros after them, up to the next multiple of four. -/
def padded (bytes : List UInt8) : List UInt8 :=
  bytes ++ List.replicate ((4 - bytes.length % 4) % 4) 0

/-- Parts with the offsets where their bytes start, when those of all parts follow each other from
    an offset on. -/
def placed {α : Type} (bytes : α → List UInt8) : Nat → List α → List (α × Nat)
  | _, [] => []
  | offset, a :: rest => (a, offset) :: placed bytes (offset + (bytes a).length) rest

@[simp] theorem length_little (width n : Nat) : (little width n).length = width := by
  induction width generalizing n with
  | zero => rfl
  | succ w ih => simp [little, ih]

/-- So many numbers fit in a width. -/
def capacity : Nat → Nat
  | 0 => 1
  | width + 1 => 256 * capacity width

/-- Bytes hold a number that fits in their width. -/
theorem ofLittle_lt_capacity : ∀ bytes : List UInt8, ofLittle bytes < capacity bytes.length
  | [] => by simp [ofLittle, capacity]
  | b :: rest => by
    have hb := b.toNat_lt
    have hrest := ofLittle_lt_capacity rest
    rw [ofLittle, List.length_cons, capacity]
    omega

/-- A number that fits reads back from the bytes it was written in. -/
theorem ofLittle_little {width n : Nat} (h : n < capacity width) :
    ofLittle (little width n) = n := by
  induction width generalizing n with
  | zero =>
    rw [capacity] at h
    simp [little, ofLittle]
    omega
  | succ w ih =>
    rw [capacity] at h
    rw [little, ofLittle, ih (by omega), UInt8.toNat_ofNat']
    omega

/-- Bytes that were read are written again as they were. -/
theorem little_ofLittle : ∀ bytes : List UInt8, little bytes.length (ofLittle bytes) = bytes
  | [] => rfl
  | b :: rest => by
    have hb : b.toNat < 256 := b.toNat_lt
    have hdiv : (b.toNat + 256 * ofLittle rest) / 256 = ofLittle rest := by omega
    have hlow : UInt8.ofNat (b.toNat + 256 * ofLittle rest) = b := by
      apply UInt8.toNat_inj.1
      rw [UInt8.toNat_ofNat']
      omega
    rw [List.length_cons, ofLittle, little, hdiv, hlow, little_ofLittle rest]

end BootImage.Bytes
