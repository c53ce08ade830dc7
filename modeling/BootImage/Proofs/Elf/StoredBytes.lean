import BootImage.Proofs.Elf.Difference
import BootImage.Proofs.Elf.Narrow
import BootImage.Word
import Mathlib.Data.List.Find
import Mathlib.Data.List.Pairwise

/-! Stored bytes by address.

    A request is answered by the first loaded segment whose file range contains all of it, with the
    bytes that the file stores for it. Where the file ranges are disjoint there is no other such
    segment, so a part of what is answered is what is answered for the part. The main statement is
    `File.bytesAt?_of_read`.

        address            |---- p ----|      |-- q --|
        requests              [----]                        stored
                              [--]                          the same bytes
                                 [------]                   stored by no segment alone

    Requests are words of 64 bits, and so are the sums that are made of them. The numbers of a
    narrow file are far smaller, so no sum passes the last word, but for the end of a request, which
    stops there. -/

namespace BootImage.Elf

open Bytes

namespace ProgramHeader

/-- The file range of the segment contains all the addresses. -/
def Covers (p : ProgramHeader) (address size : Nat) : Prop :=
  p.address ≤ address ∧ address + size ≤ p.address + p.fileSize

instance (p : ProgramHeader) (address size : Nat) : Decidable (p.Covers address size) :=
  inferInstanceAs (Decidable (_ ∧ _))

/-- Where the file stores the byte of an address. -/
def offsetOf (p : ProgramHeader) (address : Nat) : Nat := p.offset + (address - p.address)

/-- A segment that contains addresses contains each part of them. -/
theorem Covers.part {p : ProgramHeader} {address size i k : Nat} (h : p.Covers address size)
    (hik : i + k ≤ size) : p.Covers (address + i) k ∧
      p.offsetOf (address + i) = p.offsetOf address + i := by
  obtain ⟨hfirst, hlast⟩ := h
  simp only [Covers, offsetOf]
  omega

/-! ### Words -/

/-- The end of a request, or the last word where that would be passed. -/
def requestStop (address size : UInt64) : UInt64 := (Word.add? address size).getD 0xffffffffffffffff

/-- The end of the file range. -/
def wordStop (p : ProgramHeader) : UInt64 := UInt64.ofNat p.address + UInt64.ofNat p.fileSize

/-- How far an address is behind the start of the segment. -/
def wordDistance (p : ProgramHeader) (address : UInt64) : UInt64 :=
  address - UInt64.ofNat p.address

/-- Where the file stores the byte of an address. -/
def wordOffset (p : ProgramHeader) (address : UInt64) : UInt64 :=
  UInt64.ofNat p.offset + p.wordDistance address

/-- The stored bytes of the segment cover `size` addresses from `address` on. -/
def storesWord (p : ProgramHeader) (address size : UInt64) : Bool :=
  p.isLoad && UInt64.ofNat p.address ≤ address && requestStop address size ≤ p.wordStop

/-- What is computed for a request in words is what it is in natural numbers. -/
structure IsExact (p : ProgramHeader) (address size : UInt64) : Prop where
  stop : p.wordStop.toNat = p.address + p.fileSize
  distance : p.address ≤ address.toNat →
    (p.wordDistance address).toNat = address.toNat - p.address
  offset : p.Covers address.toNat size.toNat →
    (p.wordOffset address).toNat = p.offsetOf address.toNat
  offsetStop : p.Covers address.toNat size.toNat →
    p.offsetOf address.toNat + size.toNat < UInt64.size
  stores : p.storesWord address size = p.stores address.toNat size.toNat

end ProgramHeader

/-- The bytes that the file stores for some addresses, computed in words. -/
def File.wordBytesAt? (f : File) (address size : UInt64) : Option (List UInt8) := do
  let p ← f.programs.find? (·.storesWord address size)
  let stop ← Word.add? (p.wordOffset address) size
  slice? f.bytes (p.wordOffset address).toNat (stop - p.wordOffset address).toNat

namespace ProgramHeader

variable {p : ProgramHeader} {address size : UInt64}

theorem toNat_ofNat_word {n : Nat} (h : n < UInt32.size) : (UInt64.ofNat n).toNat = n :=
  UInt64.toNat_ofNat_of_lt' (Nat.lt_trans h (by decide))

theorem toNat_requestStop (address size : UInt64) :
    (requestStop address size).toNat = min (address.toNat + size.toNat) (UInt64.size - 1) := by
  have hwide : UInt64.size = 18446744073709551616 := rfl
  rw [requestStop]
  cases hadd : Word.add? address size with
  | none =>
    have hlast : (0xffffffffffffffff : UInt64).toNat = 18446744073709551615 := rfl
    have hover : ¬ address.toNat + size.toNat < UInt64.size := by
      intro hfits
      simp [Word.add?, hfits] at hadd
    rw [Option.getD_none]
    omega
  | some sum =>
    have hfits := (Word.add?_eq_some_iff.1 hadd).1
    rw [Option.getD_some, Word.toNat_of_add?_eq_some hadd]
    omega

theorem stores_iff {address size : Nat} :
    p.stores address size = true ↔ p.isLoad = true ∧ p.Covers address size := by
  simp [stores, Covers, and_assoc]

/-- Nothing that is computed about a narrow segment wraps around. -/
theorem IsNarrow.isExact (h : p.IsNarrow) (address size : UInt64) : p.IsExact address size := by
  obtain ⟨hoffset, haddress, hfile, -⟩ := h
  have hnarrow : UInt32.size = 4294967296 := rfl
  have hwide : UInt64.size = 18446744073709551616 := rfl
  have hstop : p.wordStop.toNat = p.address + p.fileSize := by
    rw [wordStop, UInt64.toNat_add, toNat_ofNat_word haddress, toNat_ofNat_word hfile]
    omega
  have hdistance : p.address ≤ address.toNat →
      (p.wordDistance address).toNat = address.toNat - p.address := by
    intro hle
    have hword : UInt64.ofNat p.address ≤ address := by
      rw [UInt64.le_iff_toNat_le, toNat_ofNat_word haddress]
      exact hle
    rw [wordDistance, UInt64.toNat_sub_of_le _ _ hword, toNat_ofNat_word haddress]
  refine ⟨hstop, hdistance, ?_, ?_, ?_⟩
  · rintro ⟨hfirst, hlast⟩
    rw [wordOffset, UInt64.toNat_add, toNat_ofNat_word hoffset, hdistance hfirst, offsetOf]
    omega
  · rintro ⟨hfirst, hlast⟩
    rw [offsetOf]
    omega
  · have hcapped : min (address.toNat + size.toNat) (UInt64.size - 1) ≤ p.address + p.fileSize ↔
        address.toNat + size.toNat ≤ p.address + p.fileSize := by omega
    rw [Bool.eq_iff_iff, stores_iff, storesWord, Covers]
    simp only [Bool.and_eq_true, decide_eq_true_eq, UInt64.le_iff_toNat_le,
      toNat_ofNat_word haddress, toNat_requestStop, hstop, hcapped, and_assoc]

end ProgramHeader

namespace File

variable {f : File} {p q : ProgramHeader} {b : List UInt8} {address size : Nat}

/-- The segment is the first whose file range contains all the addresses. -/
def FirstToCover (f : File) (address size : Nat) (p : ProgramHeader) : Prop :=
  p.Covers address size ∧
    ∃ before after, f.loads = before ++ p :: after ∧ ∀ q ∈ before, ¬ q.Covers address size

/-- No address is in the file ranges of two segments. -/
def HasDisjointRanges (f : File) : Prop :=
  f.loads.Pairwise fun p q => ∀ address, p.Covers address 1 → ¬ q.Covers address 1

/-! ### Answers -/

theorem find?_stores :
    f.programs.find? (·.stores address size) = some p ↔ f.FirstToCover address size p := by
  have hloads : f.programs.find? (·.stores address size) =
      f.loads.find? fun p => decide (p.Covers address size) := by
    rw [loads, List.find?_filter]
    refine congrArg (f.programs.find? ·) (funext fun p => ?_)
    rw [Bool.eq_iff_iff, ProgramHeader.stores_iff]
    simp
  rw [hloads, List.find?_eq_some_iff_append, FirstToCover]
  simp

/-- Bytes that are answered are those that the file holds for the first segment that contains the
    request. -/
theorem bytesAt?_eq_some_iff : f.bytesAt? address size = some b ↔
    ∃ p, f.FirstToCover address size p ∧ Holds f.bytes (p.offsetOf address) b ∧
      b.length = size := by
  simp only [bytesAt?, Option.bind_eq_bind, Option.bind_eq_some_iff, find?_stores,
    slice?_eq_some_iff, ProgramHeader.offsetOf]

/-- A request is not answered where no segment contains it, or the file ends too early. -/
theorem bytesAt?_eq_none_iff : f.bytesAt? address size = none ↔
    ∀ p, f.FirstToCover address size p → f.bytes.length < p.offsetOf address + size := by
  simp only [bytesAt?, Option.bind_eq_bind, Option.bind_eq_none_iff, find?_stores,
    slice?_eq_none_iff, ProgramHeader.offsetOf]

theorem FirstToCover.mem (h : f.FirstToCover address size p) : p ∈ f.loads := by
  obtain ⟨-, before, after, hloads, -⟩ := h
  simp [hloads]

/-! ### Disjoint file ranges -/

namespace HasDisjointRanges

variable (h : f.HasDisjointRanges)

include h

/-- Only one segment contains an address. -/
theorem eq_of_covers (hp : p ∈ f.loads) (hq : q ∈ f.loads) (hpa : p.Covers address 1)
    (hqa : q.Covers address 1) : p = q := by
  have hsymm : Std.Symm fun p q : ProgramHeader =>
      ∀ address, p.Covers address 1 → ¬ q.Covers address 1 :=
    ⟨fun p q hpq address hq hp => hpq address hp hq⟩
  by_contra hne
  exact List.Pairwise.forall h hp hq hne address hpa hqa

/-- The segment that contains a request which is not empty is the first to do so. -/
theorem firstToCover (hsize : 0 < size) (hp : p ∈ f.loads) (hcovers : p.Covers address size) :
    f.FirstToCover address size p := by
  cases hfind : f.programs.find? (·.stores address size) with
  | none =>
    obtain ⟨hmem, hload⟩ := List.mem_filter.1 hp
    have hstores := ProgramHeader.stores_iff.2 ⟨hload, hcovers⟩
    exact absurd hstores (List.find?_eq_none.1 hfind p hmem)
  | some q =>
    have hq := find?_stores.1 hfind
    have hpart : 0 + 1 ≤ size := by omega
    obtain rfl := h.eq_of_covers hp hq.mem (hcovers.part hpart).1 (hq.1.part hpart).1
    exact hq

/-- A part of an answer is the answer to the part of the request. -/
theorem bytesAt?_part (hb : f.bytesAt? address size = some b) {i k : Nat} (hk : 0 < k)
    (hik : i + k ≤ size) : f.bytesAt? (address + i) k = some ((b.drop i).take k) := by
  obtain ⟨p, hp, hheld, hlength⟩ := bytesAt?_eq_some_iff.1 hb
  obtain ⟨hpart, hoffset⟩ := hp.1.part hik
  refine bytesAt?_eq_some_iff.2 ⟨p, h.firstToCover hk hp.mem hpart, ?_, ?_⟩
  · have hsplit : b = b.take i ++ ((b.drop i).take k ++ (b.drop i).drop k) := by
      rw [List.take_append_drop, List.take_append_drop]
    have hstart : (b.take i).length = i := List.length_take_of_le (by omega)
    rw [hsplit] at hheld
    have hrest := hheld.right.left
    rwa [hstart, ← hoffset] at hrest
  · rw [List.length_take_of_le]
    rw [List.length_drop]
    omega

end HasDisjointRanges

/-! ### Requests in words -/

/-- Computed in words, a request is answered as it is in natural numbers. -/
theorem IsNarrow.wordBytesAt?_eq {bytes : List UInt8} (h : f.IsNarrow bytes)
    (address size : UInt64) :
    f.wordBytesAt? address size = f.bytesAt? address.toNat size.toNat := by
  have hfind : f.programs.find? (·.storesWord address size) =
      f.programs.find? (·.stores address.toNat size.toNat) := by
    refine List.find?_congr fun p hp => ?_
    exact ((h.programs p hp).isExact address size).stores
  rw [wordBytesAt?, bytesAt?, hfind]
  cases hp : f.programs.find? (·.stores address.toNat size.toNat) with
  | none => rfl
  | some p =>
    have hcovers := (find?_stores.1 hp).1
    have hexact := (h.programs p (List.mem_of_find?_eq_some hp)).isExact address size
    have hoffset := hexact.offset hcovers
    have hstop := hexact.offsetStop hcovers
    have hadd : Word.add? (p.wordOffset address) size = some (p.wordOffset address + size) :=
      Word.add?_eq_some_iff.2 ⟨by rwa [hoffset], rfl⟩
    have hsize : p.wordOffset address + size - p.wordOffset address = size := by
      rw [UInt64.add_comm, UInt64.add_sub_cancel]
    simp only [Option.bind_eq_bind, Option.bind_some, hadd, hoffset, hsize]
    rfl

/-- The bytes that are found for a request are those of the first segment whose file range contains
    it; none are found if there is no such segment, or the file ends before them. Where the file
    ranges are disjoint, no other segment contains a request that is not empty, and what is found
    for a part of it is that part. Nothing that is computed in words wraps around. -/
theorem bytesAt?_of_read {bytes : List UInt8} (h : File.read bytes = .ok f) :
    (∀ address size : Nat,
      (∀ b, f.bytesAt? address size = some b ↔ ∃ p, f.FirstToCover address size p ∧
        Holds bytes (p.offsetOf address) b ∧ b.length = size) ∧
      (f.bytesAt? address size = none ↔
        ∀ p, f.FirstToCover address size p → bytes.length < p.offsetOf address + size)) ∧
    (f.HasDisjointRanges → ∀ address size : Nat,
      (∀ p ∈ f.loads, 0 < size → p.Covers address size → f.FirstToCover address size p) ∧
      ∀ b, f.bytesAt? address size = some b → ∀ i k, 0 < k → i + k ≤ size →
        f.bytesAt? (address + i) k = some ((b.drop i).take k)) ∧
    ∀ address size : UInt64,
      f.wordBytesAt? address size = f.bytesAt? address.toNat size.toNat ∧
      ∀ p ∈ f.loads, p.IsExact address size := by
  have hnarrow := isNarrow_of_read h
  obtain rfl := hnarrow.bytes_eq
  refine ⟨fun address size => ⟨fun b => bytesAt?_eq_some_iff, bytesAt?_eq_none_iff⟩,
    fun hdisjoint address size => ⟨fun p hp hsize => hdisjoint.firstToCover hsize hp,
      fun b hb i k => hdisjoint.bytesAt?_part hb⟩,
    fun address size => ⟨hnarrow.wordBytesAt?_eq address size, fun p hp => ?_⟩⟩
  exact (hnarrow.programs p (List.mem_filter.1 hp).1).isExact address size

/-- A part of the code, and a request past the last word. -/
theorem bytesAt?_of_read_linked :
    File.read Draft.linked.bytes = .ok Draft.linked.file ∧ Draft.linked.file.HasDisjointRanges ∧
    Draft.linked.file.bytesAt? 0x100000 2 = some [1, 2] ∧
    Draft.linked.file.bytesAt? (0x100000 + 1) 1 = some [2] ∧
    Draft.linked.file.wordBytesAt? 0x100001 0xffffffffffffffff = none := by
  have hread := Draft.read_bytes (d := Draft.linked) (by decide +kernel)
  have hdisjoint : Draft.linked.file.HasDisjointRanges := by
    have hloads : Draft.linked.file.loads =
        [⟨1, 5, 116, 0x100000, 2, 4⟩, ⟨1, 6, 120, 0x101000, 1, 1⟩] := by decide
    rw [HasDisjointRanges, hloads]
    simp [ProgramHeader.Covers]
    omega
  have hcode : Draft.linked.file.bytesAt? 0x100000 2 = some [1, 2] := by decide +kernel
  obtain ⟨-, hparts, hwords⟩ := bytesAt?_of_read hread
  refine ⟨hread, hdisjoint, hcode, (hparts hdisjoint _ _).2 _ hcode 1 1 (by decide) (by decide), ?_⟩
  rw [(hwords _ _).1]
  decide +kernel

end File

end BootImage.Elf
