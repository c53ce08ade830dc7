import BootImage.Elf.Draft
import BootImage.Proofs.Bytes
import BootImage.Proofs.Text.ByteOrder

/-! Records and names are read back.

    A record is read back if each of its numbers fits the field that it is written to. A name is
    read back from every offset where it was placed: its bytes are no zeros, so it ends at its own
    terminator. -/

namespace BootImage.Elf

open BootImage.Bytes

/-- The encoding of the files that are written. -/
def Encoding.narrow : Encoding := ⟨false, .littleEndian⟩

/-- A number that fits its field is read from it. -/
theorem Encoding.field_narrow {record : List UInt8} {offset wideOffset size n : Nat}
    (hn : n < capacity size) (h : (record.drop offset).take size = little size n) :
    Encoding.narrow.field record offset wideOffset size = n := by
  have hread : Encoding.narrow.field record offset wideOffset size =
      ofLittle ((record.drop offset).take size) := rfl
  rw [hread, h, ofLittle_little hn]

/-- A word fits a field of four bytes. -/
theorem toNat_lt_capacity (w : UInt32) : w.toNat < capacity 4 := w.toNat_lt

/-- The program header of the segment, whose contents stand at an offset. -/
def SegmentDraft.described (s : SegmentDraft) (offset : Nat) : ProgramHeader :=
  ⟨1, s.permissions.bits.toNat, offset, s.address.toNat, s.data.length, s.memSize.toNat⟩

theorem SegmentDraft.decode_header (s : SegmentDraft) {offset : Nat} (hoffset : offset < capacity 4)
    (hdata : s.data.length < capacity 4) :
    ProgramHeader.decode .narrow (s.header offset) = s.described offset := by
  rw [ProgramHeader.decode, described, ProgramHeader.mk.injEq]
  exact ⟨Encoding.field_narrow (by decide) rfl, Encoding.field_narrow (toNat_lt_capacity _) rfl,
    Encoding.field_narrow hoffset rfl, Encoding.field_narrow (toNat_lt_capacity _) rfl,
    Encoding.field_narrow hdata rfl, Encoding.field_narrow (toNat_lt_capacity _) rfl⟩

theorem decode_symbolRecord {name : Nat} (hname : name < capacity 4) (value : UInt32) :
    Symbol.decode .narrow (symbolRecord name value) = ⟨name, value.toNat, 0xfff1⟩ := by
  rw [Symbol.decode, Symbol.mk.injEq]
  exact ⟨Encoding.field_narrow hname rfl, Encoding.field_narrow (toNat_lt_capacity _) rfl,
    Encoding.field_narrow (by decide) rfl⟩

namespace SectionDraft

/-- The header of the section, whose name stands at an offset. -/
def described (s : SectionDraft) (name : Nat) : SectionHeader :=
  ⟨name, s.kind, s.address, s.offset, s.size, s.link, s.entrySize⟩

/-- The numbers of the header fit their fields. -/
structure Fits (s : SectionDraft) : Prop where
  kind : s.kind < capacity 4
  address : s.address < capacity 4
  offset : s.offset < capacity 4
  size : s.size < capacity 4
  link : s.link < capacity 4
  entrySize : s.entrySize < capacity 4

namespace Fits

variable {s : SectionDraft} (h : s.Fits) {name : Nat}

include h

theorem decode_header (hname : name < capacity 4) :
    SectionHeader.decode .narrow (s.header name) = s.described name := by
  rw [SectionHeader.decode, described, SectionHeader.mk.injEq]
  exact ⟨Encoding.field_narrow hname rfl, Encoding.field_narrow h.kind rfl,
    Encoding.field_narrow h.address rfl, Encoding.field_narrow h.offset rfl,
    Encoding.field_narrow h.size rfl, Encoding.field_narrow h.link rfl,
    Encoding.field_narrow h.entrySize rfl⟩

/-- Narrow addresses are far from the last one. -/
theorem isAddressable : (s.described name).isAddressable = true := by
  have haddress : s.address < 4294967296 := h.address
  have hsize : s.size < 4294967296 := h.size
  have hlast : s.address + s.size < 18446744073709551616 := by omega
  rw [SectionHeader.isAddressable, Bool.or_eq_true]
  exact .inr (decide_eq_true hlast)

end Fits

end SectionDraft

namespace Draft

variable {d : Draft}

/-- The file header as it is read. -/
def fileHeader (d : Draft) : Header :=
  ⟨armMachine, d.entry.toNat, 52, d.sectionsOffset, d.segments.length, d.sections.length + 1,
    d.sections.length⟩

theorem decode_header (hoffset : d.sectionsOffset < capacity 4)
    (hsegments : d.segments.length < capacity 2) (hsections : d.sections.length + 1 < capacity 2) :
    Header.decode .narrow d.header = d.fileHeader := by
  rw [Header.decode, fileHeader, Header.mk.injEq]
  exact ⟨Encoding.field_narrow (by decide) rfl, Encoding.field_narrow (toNat_lt_capacity _) rfl,
    Encoding.field_narrow (by decide) rfl, Encoding.field_narrow hoffset rfl,
    Encoding.field_narrow hsegments rfl, Encoding.field_narrow hsections rfl,
    Encoding.field_narrow (Nat.lt_of_succ_lt hsections) rfl⟩

end Draft

/-! ### Names -/

/-- The bytes of a name are no terminator. -/
theorem IsName.zero_not_mem {name : String} (h : IsName name) : 0 ∉ Text.encode name := fun hz =>
  h.no_zero (Text.mem_toList_of_mem_encode (c := '\x00') (by decide) hz)

namespace StringTable

/-- The names of a table are UTF-8 together, with their terminators. -/
theorem exists_flatMap_entry : ∀ names : List String,
    ∃ text, names.flatMap entry = Text.encode text
  | [] => ⟨"", rfl⟩
  | name :: rest => by
    obtain ⟨text, htext⟩ := exists_flatMap_entry rest
    refine ⟨name ++ "\x00" ++ text, ?_⟩
    rw [List.flatMap_cons, htext, Text.encode_append, Text.encode_append]
    rfl

theorem ofBytes?_ofNames (names : List String) :
    ofBytes? (ofNames names).bytes = some (ofNames names) := by
  obtain ⟨text, htext⟩ := exists_flatMap_entry names
  have hbytes : (ofNames names).bytes = Text.encode ("\x00" ++ text) := by
    rw [Text.encode_append, ← htext]
    rfl
  rw [ofBytes?, hbytes, Text.decode?_encode, Option.map_some, ← hbytes]

/-- A table of names starts with the empty name. -/
theorem get?_ofNames_zero (names : List String) : (ofNames names).get? 0 = some "" :=
  Text.decode?_encode ""

/-- A name is found where the table holds it. -/
theorem get?_of_holds {table : StringTable} {name : String} (hname : IsName name) {offset : Nat}
    (h : Holds table.bytes offset (entry name)) : table.get? offset = some name := by
  obtain ⟨before, after, htable, rfl⟩ := h
  have hdrop : table.bytes.drop before.length = Text.encode name ++ 0 :: after := by
    rw [htable, entry, List.append_assoc, List.drop_left, List.append_assoc]
    rfl
  rw [get?, hdrop]
  split
  · next hnil => exact absurd hnil (by simp)
  · rw [takeWhile_terminated hname.zero_not_mem, Text.decode?_encode]

/-- The table of names holds each of them where it was placed. -/
theorem holds_ofNames {α : Type} {name : α → String} {parts : List α} {a : α} {k : Nat}
    (h : (a, k) ∈ placed (fun a => entry (name a)) 1 parts) :
    Holds (ofNames (parts.map name)).bytes k (entry (name a)) := by
  have hparts : Holds (ofNames (parts.map name)).bytes 1 (parts.flatMap fun a => entry (name a)) :=
    ⟨[0], [], by rw [ofNames, List.flatMap_map, List.append_nil]; rfl, rfl⟩
  exact hparts.of_mem_placed h

end StringTable

end BootImage.Elf
