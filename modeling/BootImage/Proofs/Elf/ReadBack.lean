import BootImage.Proofs.Elf.Draft
import BootImage.Proofs.SymbolTable

/-! Files that are written from a draft are read back.

    The reader accepts the file, and what is found in it is the draft: the entry, the segments with
    all bits of their permissions, the last value of each symbol, and the sections with their
    contents. The main statement is `Draft.isReadFrom_read`. -/

namespace BootImage.Elf

open Bytes

/-- The sections that are found of a segment: its contents, and the zeroed memory after them. -/
def SegmentDraft.found (s : SegmentDraft) : List NamedSection :=
  ⟨s.name, s.address.toNat, s.data.length, s.data⟩ ::
    if s.data.length < s.memSize.toNat then
      [⟨".bss", s.address.toNat + s.data.length, s.memSize.toNat - s.data.length, []⟩]
    else []

namespace Draft

/-- What is found in a file is the draft. -/
structure IsReadFrom (d : Draft) (f : File) : Prop where
  entry : f.image.entry = d.entry.toUInt64
  segments : f.image.segments = d.segments.map fun s =>
    ⟨s.permissions, s.address.toUInt64, s.memSize.toUInt64, UInt64.ofNat s.data.length⟩
  /-- A symbol has its last value, and there are no other symbols. -/
  symbols : ∀ name,
    f.image.symbols.get? name = (d.symbols.reverse.lookup name).map (·.toUInt64)
  sections : f.namedSections = d.segments.flatMap (·.found) ++
    [⟨".symtab", 0, d.symbolBytes.length, d.symbolBytes⟩,
      ⟨".strtab", 0, d.symbolNames.bytes.length, d.symbolNames.bytes⟩,
      ⟨".shstrtab", 0, d.sectionNames.bytes.length, d.sectionNames.bytes⟩]

variable {d : Draft}

theorem read_bytes (h : d.IsWritable) : File.read d.bytes = .ok d.file := by
  rw [File.read, parse?_bytes h]
  rfl

/-- Every segment is found as it was drafted. -/
theorem segments_file (d : Draft) : d.file.image.segments = d.segments.map fun s =>
    ⟨s.permissions, s.address.toUInt64, s.memSize.toUInt64, UInt64.ofNat s.data.length⟩ := by
  have hloads : d.file.loads = d.programs := by
    refine List.filter_eq_self.2 fun p hp => ?_
    obtain ⟨s, -, rfl⟩ := List.mem_map.1 hp
    rfl
  rw [File.image, hloads, programs, List.map_map]
  refine Eq.trans (List.map_congr_left fun p _ => ?_) (map_placed _)
  simp [SegmentDraft.described]

/-- Every symbol is found, and nothing else. -/
theorem symbols_file (h : d.IsWritable) : d.file.symbols.filterMap d.file.defined? =
    d.symbols.map fun s => (s.1, s.2.toUInt64) := by
  have hdefined : ∀ p ∈ d.placedSymbols,
      d.file.defined? ⟨p.2, p.1.2.toNat, 0xfff1⟩ = some (p.1.1, p.1.2.toUInt64) := by
    intro p hp
    have hname := h.symbols p.1 (fst_mem_of_mem_placed hp)
    have hget : d.file.symbolNames.get? p.2 = some p.1.1 :=
      StringTable.get?_of_holds hname (holds_symbolName hp)
    have hkept : (p.1.1 != "") = true := bne_iff_ne.2 hname.ne_empty
    have habsolute : ¬ 0xfff1 = 0 := by decide
    rw [File.defined?, if_neg habsolute, hget, Option.filter_some, if_pos hkept, Option.map_some,
      UInt64.ofNat_uInt32ToNat]
  have hnull : d.file.defined? ⟨0, 0, 0⟩ = none := rfl
  have hfile : d.file.symbols = d.symbolEntries := rfl
  rw [hfile, symbolEntries, List.filterMap_cons_none hnull, List.filterMap_map]
  exact filterMap_placed hdefined

/-- A section that stands in the file is found with its contents. -/
theorem named?_described {p : SectionDraft × Nat} (hp : p ∈ d.placedSections)
    (hs : p.1.StandsIn d.bytes) :
    d.file.named? (p.1.described p.2) = some p.1.toNamedSection := by
  have hget : d.file.sectionNames.get? (p.1.described p.2).name = some p.1.name :=
    StringTable.get?_of_holds hs.named (holds_sectionName hp)
  have hkept : (p.1.name != "") = true := bne_iff_ne.2 hs.named.ne_empty
  have hshown : p.1.toNamedSection = ⟨p.1.name, p.1.address, p.1.size, p.1.data⟩ := rfl
  by_cases hkind : p.1.kind = 8
  · have hzeroed : (p.1.described p.2).isZeroed = true := beq_iff_eq.2 hkind
    rw [hshown, hs.zeroed hkind]
    simp only [File.named?, hget, hzeroed, Option.filter_some, hkept, if_true, Option.bind_eq_bind,
      Option.bind_some]
    rfl
  · obtain ⟨hsize, hheld⟩ := hs.held hkind
    have hstored : ¬ (p.1.described p.2).isZeroed = true := fun hz => hkind (beq_iff_eq.1 hz)
    have hslice : slice? d.file.bytes (p.1.described p.2).offset (p.1.described p.2).size =
        some p.1.data := (congrArg _ hsize).trans hheld.slice?_eq
    rw [hshown]
    simp only [File.named?, hget, hstored, hslice, Option.filter_some, hkept, if_true,
      Option.bind_eq_bind, Option.bind_some]
    rfl

/-- The sections that are found are those of the draft. -/
theorem namedSections_file (h : d.IsWritable) :
    d.file.namedSections = d.sections.map (·.toNamedSection) := by
  have hnull : d.file.named? ⟨0, 0, 0, 0, 0, 0, 0⟩ = none := by
    have hget : d.file.sectionNames.get? 0 = some "" := StringTable.get?_ofNames_zero _
    simp [File.named?, hget]
  have hfile : d.file.sections = d.sectionHeaders := rfl
  rw [File.namedSections, hfile, sectionHeaders, List.filterMap_cons_none hnull,
    List.filterMap_map]
  refine filterMap_placed fun p hp => ?_
  exact named?_described hp (standsIn_of_mem_sections h (fst_mem_of_mem_placed hp))

/-- The sections of the segments are found with them. -/
theorem map_segmentSections (d : Draft) :
    d.segmentSections.map (·.toNamedSection) = d.segments.flatMap (·.found) := by
  have hsegments : d.placedSegments.map (·.1) = d.segments := map_fst_placed _ _
  rw [segmentSections, List.map_flatMap, ← hsegments, List.flatMap_map]
  refine List.flatMap_congr fun p _ => ?_
  rw [SegmentDraft.sections, SegmentDraft.found]
  split <;> rfl

/-- A file that is written from a draft is accepted, and what is found in it is the draft. -/
theorem isReadFrom_read (d : Draft) (h : d.IsWritable) :
    ∃ f, File.read d.bytes = .ok f ∧ d.IsReadFrom f := by
  refine ⟨d.file, read_bytes h, ?_⟩
  have hsymbols : d.file.image.symbols = .ofList (d.symbols.map fun s => (s.1, s.2.toUInt64)) := by
    rw [File.image, symbols_file h]
  exact {
    entry := UInt64.ofNat_uInt32ToNat d.entry
    segments := segments_file d
    symbols := fun name => by
      rw [hsymbols, SymbolTable.get?_ofList_eq_lookup, ← List.map_reverse,
        SymbolTable.lookup_map]
    sections := by
      rw [namedSections_file h, sections, List.map_append, map_segmentSections]
      rfl }

/-- A draft with bits without a name, zeroed memory, an empty segment, and a symbol with two
    values. -/
def sample : Draft where
  entry := 0x100000
  segments :=
    [⟨".text", ⟨0x80000005⟩, 0x100000, [1, 2, 3], 8⟩, ⟨".données", ⟨6⟩, 0x101000, [], 0⟩]
  symbols := [("_start", 0x100000), ("é", 0xffffffff), ("_start", 0x100004)]

theorem isReadFrom_read_sample : sample.IsWritable ∧
    ∃ f, File.read sample.bytes = .ok f ∧ sample.IsReadFrom f ∧
      f.image.symbols.get? "_start" = some 0x100004 := by
  have hwritable : sample.IsWritable := {
    segments := by
      intro s hs
      rcases List.mem_pair.1 hs with rfl | rfl
      · exact ⟨by decide, by decide, by decide⟩
      · exact ⟨by decide, by decide, by decide⟩
    symbols := by decide
    bounded := by decide +kernel
    counted := by decide }
  obtain ⟨f, hread, hf⟩ := isReadFrom_read sample hwritable
  exact ⟨hwritable, f, hread, hf, hf.symbols "_start"⟩

end Draft

end BootImage.Elf
