import BootImage.Elf.File
import BootImage.Proofs.Bytes

/-! Files with narrow addresses.

    An address field of such a file takes four bytes, so what is read from it is a word of 32 bits,
    whatever the file holds. Only these files are accepted: `File.isNarrow_of_read`. -/

namespace BootImage.Elf

open Bytes

variable {e : Encoding} {bytes : List UInt8} {f : File} {p : ProgramHeader}

/-- A field holds a number that fits in its width, also where the record ends before it. -/
theorem Encoding.field_lt_capacity (e : Encoding) (record : List UInt8) (narrow wide size : Nat) :
    e.field record narrow wide size < capacity size := by
  cases horder : e.order with
  | littleEndian =>
    simp only [field, horder, Order.number]
    exact ofLittle_take_lt_capacity size _
  | bigEndian =>
    simp only [field, horder, Order.number]
    refine Nat.lt_of_lt_of_le (ofLittle_lt_capacity _) (capacity_le_capacity ?_)
    rw [List.length_reverse]
    exact List.length_take_le _ _

theorem Encoding.address_lt (h : e.wide = false) (record : List UInt8) (narrow wide : Nat) :
    e.address record narrow wide < UInt32.size := by
  have hsize : e.pick 4 8 = 4 := by simp [pick, h]
  rw [address, hsize]
  exact e.field_lt_capacity record narrow wide 4

/-- The numbers of the header are words of 32 bits. -/
structure ProgramHeader.IsNarrow (p : ProgramHeader) : Prop where
  offset : p.offset < UInt32.size
  address : p.address < UInt32.size
  fileSize : p.fileSize < UInt32.size
  memSize : p.memSize < UInt32.size

theorem ProgramHeader.isNarrow_decode (h : e.wide = false) (record : List UInt8) :
    (decode e record).IsNarrow where
  offset := e.address_lt h record 4 8
  address := e.address_lt h record 8 16
  fileSize := e.address_lt h record 16 32
  memSize := e.address_lt h record 20 40

/-- Every program header is read from a record. -/
theorem exists_decode_of_readPrograms? {h : Header} {programs : List ProgramHeader}
    (hread : readPrograms? e h bytes = some programs) (hp : p ∈ programs) :
    ∃ record, p = .decode e record := by
  rw [readPrograms?] at hread
  split at hread
  · obtain rfl := Option.some.inj hread
    simp at hp
  · obtain ⟨found, -, rfl⟩ := Option.map_eq_some_iff.1 hread
    obtain ⟨record, -, rfl⟩ := List.mem_map.1 hp
    exact ⟨record, rfl⟩

namespace File

/-- The file has narrow addresses, and keeps the bytes that it was read from. -/
structure IsNarrow (f : File) (bytes : List UInt8) : Prop where
  bytes_eq : f.bytes = bytes
  wide : f.encoding.wide = false
  programs : ∀ p ∈ f.programs, p.IsNarrow

theorem bytes_of_parse? (h : parse? bytes = some f) :
    f.bytes = bytes ∧ ∃ header, readPrograms? f.encoding header bytes = some f.programs := by
  simp only [parse?, Option.bind_eq_bind, Option.bind_eq_some_iff] at h
  obtain ⟨ident, -, e, -, record, -, programs, hprograms, sections, -, names, -, symbols, -, h⟩ := h
  obtain rfl := Option.some.inj h
  exact ⟨rfl, _, hprograms⟩

/-- A file that is accepted is narrow. -/
theorem isNarrow_of_read (h : File.read bytes = .ok f) : f.IsNarrow bytes := by
  rw [File.read] at h
  split at h
  · cases h
  · next g hparse =>
    obtain ⟨hbytes, header, hprograms⟩ := bytes_of_parse? hparse
    have hwide : g.encoding.wide = false := by
      cases hw : g.encoding.wide with
      | false => rfl
      | true => simp [hw] at h
    obtain rfl : g = f := by
      simp only [hwide, Bool.false_eq_true, if_false] at h
      split at h
      · cases h
      · split at h
        · cases h
        · exact Except.ok.inj h
    refine ⟨hbytes, hwide, fun p hp => ?_⟩
    obtain ⟨record, rfl⟩ := exists_decode_of_readPrograms? hprograms hp
    exact ProgramHeader.isNarrow_decode hwide record

end File

end BootImage.Elf
