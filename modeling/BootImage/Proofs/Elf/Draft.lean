import BootImage.Proofs.Elf.Records
import Mathlib.Algebra.BigOperators.Group.List.Basic

/-! Files that are written from a draft are read in full.

    Every part stands at the offset that the headers give for it, and in a file of the right size
    every number fits its field. So each table is read as it was written, and the main statement,
    `Draft.parse?_bytes`, puts them together. -/

namespace BootImage.Elf

open Bytes

/-! ### Where the parts stand -/

namespace Draft

theorem length_of_mem_programRecords {d : Draft} {r : List UInt8} (h : r ∈ d.programRecords) :
    r.length = 32 := by
  obtain ⟨p, -, rfl⟩ := List.mem_map.1 h
  rfl

theorem length_of_mem_symbolRecords {d : Draft} {r : List UInt8} (h : r ∈ d.symbolRecords) :
    r.length = 16 := by
  rcases List.mem_cons.1 h with rfl | h
  · rfl
  · obtain ⟨p, -, rfl⟩ := List.mem_map.1 h
    rfl

theorem length_of_mem_sectionRecords {d : Draft} {r : List UInt8} (h : r ∈ d.sectionRecords) :
    r.length = 40 := by
  rcases List.mem_cons.1 h with rfl | h
  · rfl
  · obtain ⟨p, -, rfl⟩ := List.mem_map.1 h
    rfl

theorem length_programRecords (d : Draft) :
    d.programRecords.length = d.segments.length := by
  rw [programRecords, List.length_map, placedSegments, length_placed]

theorem length_symbolRecords (d : Draft) :
    d.symbolRecords.length = d.symbols.length + 1 := by
  rw [symbolRecords, List.length_cons, List.length_map, placedSymbols, length_placed]

theorem length_sectionRecords (d : Draft) :
    d.sectionRecords.length = d.sections.length + 1 := by
  rw [sectionRecords, List.length_cons, List.length_map, placedSections, length_placed]

theorem length_sections (d : Draft) : d.sections.length = d.segmentSections.length + 3 := by
  rw [sections, List.length_append]
  rfl

/-- Every segment has a section. -/
theorem length_segments_le (d : Draft) : d.segments.length ≤ d.sections.length := by
  have hone : ∀ n ∈ d.placedSegments.map fun p => (p.1.sections p.2).length, 1 ≤ n := by
    intro n hn
    obtain ⟨p, -, rfl⟩ := List.mem_map.1 hn
    rw [SegmentDraft.sections]
    split <;> simp
  have hsum := List.length_le_sum_of_one_le _ hone
  rw [List.length_map, placedSegments, length_placed] at hsum
  rw [length_sections, segmentSections, List.length_flatMap]
  exact Nat.le_add_right_of_le hsum

/-- The offsets of the parts are where they stand in the file. -/
structure Stands (d : Draft) : Prop where
  header : Holds d.bytes 0 d.header
  programs : Holds d.bytes 52 d.programRecords.flatten
  contents : Holds d.bytes d.contentsOffset d.contents
  symbols : Holds d.bytes d.symbolsOffset d.symbolBytes
  symbolNames : Holds d.bytes d.symbolNamesOffset d.symbolNames.bytes
  sectionNames : Holds d.bytes d.sectionNamesOffset d.sectionNames.bytes
  sections : Holds d.bytes d.sectionsOffset d.sectionRecords.flatten

theorem stands (d : Draft) : d.Stands := by
  -- an offset is the length of everything before it
  have hcontents : (d.header ++ d.programRecords.flatten).length = d.contentsOffset := by
    have hheader : d.header.length = 52 := rfl
    rw [List.length_append, hheader, length_flatten fun _ => length_of_mem_programRecords,
      length_programRecords, contentsOffset]
  have hsymbols :
      (d.header ++ d.programRecords.flatten ++ d.contents).length = d.symbolsOffset := by
    rw [List.length_append, hcontents, symbolsOffset]
  have hnames : (d.header ++ d.programRecords.flatten ++ d.contents ++ d.symbolBytes).length =
      d.symbolNamesOffset := by
    rw [List.length_append, hsymbols, symbolNamesOffset]
  have hsections : (d.header ++ d.programRecords.flatten ++ d.contents ++ d.symbolBytes
      ++ d.nameBytes).length = d.sectionsOffset := by
    rw [List.length_append, hnames, sectionsOffset]
  have hfile : Holds d.bytes 0 (d.header ++ d.programRecords.flatten ++ d.contents
      ++ d.symbolBytes ++ d.nameBytes ++ d.sectionRecords.flatten) :=
    ⟨[], [], (List.append_nil _).symm, rfl⟩
  have hnameBytes := hfile.left.rest hnames
  exact {
    header := hfile.left.left.left.left.left
    programs := hfile.left.left.left.left.rest rfl
    contents := hfile.left.left.left.rest hcontents
    symbols := hfile.left.left.rest hsymbols
    symbolNames := hnameBytes.left.left
    sectionNames := hnameBytes.left.right
    sections := hfile.rest hsections }

end Draft

/-! ### Sections -/

/-- A section can be read back from a file: its header can hold its numbers, and the file holds its
    contents. -/
structure SectionDraft.StandsIn (s : SectionDraft) (file : List UInt8) : Prop extends s.Fits where
  named : IsName s.name
  zeroed : s.kind = 8 → s.data = []
  held : s.kind ≠ 8 → s.size = s.data.length ∧ Holds file s.offset s.data

/-- A section with contents in the file can be read back. -/
theorem SectionDraft.standsIn_of_holds {s : SectionDraft} {file : List UInt8}
    (hfile : file.length < capacity 4) (hheld : Holds file s.offset s.data)
    (hsize : s.size = s.data.length) (hname : IsName s.name) (hkind : s.kind < 8)
    (haddress : s.address < capacity 4) (hlink : s.link < capacity 4)
    (hentry : s.entrySize < capacity 4) : s.StandsIn file where
  kind := Nat.lt_trans hkind (by decide)
  address := haddress
  offset := by
    have hend := hheld.end_le
    omega
  size := by
    have hend := hheld.end_le
    omega
  link := hlink
  entrySize := hentry
  named := hname
  zeroed heq := absurd heq (Nat.ne_of_lt hkind)
  held _ := ⟨hsize, hheld⟩

namespace SegmentDraft

variable {s : SegmentDraft} {file : List UInt8} {offset : Nat}

theorem stored_standsIn (h : s.IsWritable) (hfile : file.length < capacity 4)
    (hheld : Holds file offset s.data) : (s.stored offset).StandsIn file :=
  have hzero : 0 < capacity 4 := by decide
  SectionDraft.standsIn_of_holds hfile hheld rfl h.named (show 1 < 8 by decide)
    (toNat_lt_capacity s.address) hzero hzero

theorem zeroed_standsIn (h : s.IsWritable) (hfile : file.length < capacity 4)
    (hheld : Holds file offset s.data) : (s.zeroed offset).StandsIn file where
  kind := show 8 < capacity 4 by decide
  address := by
    have hcovered := h.covered
    have hbounded : s.address.toNat + s.memSize.toNat < capacity 4 := h.bounded
    show s.address.toNat + s.data.length < capacity 4
    omega
  offset := Nat.lt_of_le_of_lt hheld.end_le hfile
  size := Nat.lt_of_le_of_lt (Nat.sub_le _ _) (toNat_lt_capacity s.memSize)
  link := show 0 < capacity 4 by decide
  entrySize := show 0 < capacity 4 by decide
  named := show IsName ".bss" by decide
  zeroed _ := rfl
  held hkind := absurd rfl hkind

theorem standsIn_of_mem_sections (h : s.IsWritable) (hfile : file.length < capacity 4)
    (hheld : Holds file offset s.data) {t : SectionDraft} (ht : t ∈ s.sections offset) :
    t.StandsIn file := by
  rw [sections] at ht
  split at ht
  · rcases List.mem_pair.1 ht with rfl | rfl
    · exact stored_standsIn h hfile hheld
    · exact zeroed_standsIn h hfile hheld
  · rw [List.mem_singleton.1 ht]
    exact stored_standsIn h hfile hheld

end SegmentDraft

namespace Draft

variable {d : Draft}

/-- The file holds the contents of every segment. -/
theorem holds_data {s : SegmentDraft} {offset : Nat} (h : (s, offset) ∈ d.placedSegments) :
    Holds d.bytes offset s.data :=
  (d.stands.contents.of_mem_placed h).left

theorem symbolSection_standsIn (h : d.IsWritable) : d.symbolSection.StandsIn d.bytes := by
  have hcounted := h.counted
  rw [length_sections] at hcounted
  refine SectionDraft.standsIn_of_holds h.bounded d.stands.symbols rfl
    (show IsName ".symtab" by decide) (show 2 < 8 by decide) (show 0 < capacity 4 by decide)
    ?_ (show 16 < capacity 4 by decide)
  show d.segmentSections.length + 2 < 4294967296
  omega

theorem tableSection_standsIn (h : d.IsWritable) {name : String} (hname : IsName name)
    {offset : Nat} {table : StringTable} (hheld : Holds d.bytes offset table.bytes) :
    (tableSection name offset table).StandsIn d.bytes :=
  have hzero : 0 < capacity 4 := by decide
  SectionDraft.standsIn_of_holds h.bounded hheld rfl hname (show 3 < 8 by decide) hzero hzero hzero

/-- Every section can be read back from the file. -/
theorem standsIn_of_mem_sections (h : d.IsWritable) {s : SectionDraft} (hs : s ∈ d.sections) :
    s.StandsIn d.bytes := by
  rcases List.mem_append.1 hs with hs | hs
  · obtain ⟨⟨t, offset⟩, ht, hs⟩ := List.mem_flatMap.1 hs
    have hwritable := h.segments t (fst_mem_of_mem_placed ht)
    exact SegmentDraft.standsIn_of_mem_sections hwritable h.bounded (holds_data ht) hs
  · simp only [List.mem_cons, List.not_mem_nil, or_false] at hs
    rcases hs with rfl | rfl | rfl
    · exact symbolSection_standsIn h
    · exact tableSection_standsIn h (by decide) d.stands.symbolNames
    · exact tableSection_standsIn h (by decide) d.stands.sectionNames

/-! ### The tables that are read -/

/-- The names of all sections, with the names of the tables last. -/
theorem map_name_sections (d : Draft) : d.sections.map (·.name) =
    d.segmentSections.map (·.name) ++ [".symtab", ".strtab", ".shstrtab"] := by
  rw [sections, List.map_append]
  rfl

/-- The table of section names holds each of them where its header says. -/
theorem holds_sectionName {p : SectionDraft × Nat} (h : p ∈ d.placedSections) :
    Holds d.sectionNames.bytes p.2 (StringTable.entry p.1.name) := by
  rw [sectionNames, ← map_name_sections]
  exact StringTable.holds_ofNames h

theorem holds_symbolName {p : (String × UInt32) × Nat} (h : p ∈ d.placedSymbols) :
    Holds d.symbolNames.bytes p.2 (StringTable.entry p.1.1) :=
  StringTable.holds_ofNames h

/-- The program headers of the file. -/
def programs (d : Draft) : List ProgramHeader :=
  d.placedSegments.map fun p => p.1.described p.2

/-- The symbols of the file. -/
def symbolEntries (d : Draft) : List Symbol :=
  ⟨0, 0, 0⟩ :: d.placedSymbols.map fun p => ⟨p.2, p.1.2.toNat, 0xfff1⟩

/-- The section headers of the file. -/
def sectionHeaders (d : Draft) : List SectionHeader :=
  ⟨0, 0, 0, 0, 0, 0, 0⟩ :: d.placedSections.map fun p => p.1.described p.2

theorem map_decode_programRecords (h : d.IsWritable) :
    d.programRecords.map (ProgramHeader.decode .narrow) = d.programs := by
  rw [programRecords, programs, List.map_map]
  refine List.map_congr_left fun p hp => ?_
  have hend := (holds_data hp).end_le
  have hfile : d.bytes.length < capacity 4 := h.bounded
  exact p.1.decode_header (by omega) (by omega)

theorem map_decode_symbolRecords (h : d.IsWritable) :
    d.symbolRecords.map (Symbol.decode .narrow) = d.symbolEntries := by
  rw [symbolRecords, symbolEntries, List.map_cons, List.map_map]
  refine congrArg₂ List.cons rfl (List.map_congr_left fun p hp => ?_)
  have hend := (holds_symbolName hp).end_le
  have hnames := d.stands.symbolNames.end_le
  have hfile : d.bytes.length < capacity 4 := h.bounded
  exact decode_symbolRecord (by omega) p.1.2

theorem map_decode_sectionRecords (h : d.IsWritable) :
    d.sectionRecords.map (SectionHeader.decode .narrow) = d.sectionHeaders := by
  rw [sectionRecords, sectionHeaders, List.map_cons, List.map_map]
  refine congrArg₂ List.cons rfl (List.map_congr_left fun p hp => ?_)
  have hend := (holds_sectionName hp).end_le
  have hnames := d.stands.sectionNames.end_le
  have hfile : d.bytes.length < capacity 4 := h.bounded
  exact (standsIn_of_mem_sections h (fst_mem_of_mem_placed hp)).toFits.decode_header (by omega)

theorem decode_fileHeader (h : d.IsWritable) : Header.decode .narrow d.header = d.fileHeader := by
  have hcounted : d.sections.length < 65280 := h.counted
  have hsegments := length_segments_le d
  have hend := d.stands.sections.end_le
  have hfile : d.bytes.length < capacity 4 := h.bounded
  refine decode_header (by omega) ?_ ?_
  · show d.segments.length < 65536
    omega
  · show d.sections.length + 1 < 65536
    omega

/-- The file as it is read. -/
def file (d : Draft) : File where
  encoding := .narrow
  header := d.fileHeader
  programs := d.programs
  sections := d.sectionHeaders
  sectionNames := d.sectionNames
  symbols := d.symbolEntries
  symbolNames := d.symbolNames
  bytes := d.bytes

theorem readPrograms?_bytes (h : d.IsWritable) :
    readPrograms? .narrow d.fileHeader d.bytes = some d.programs := by
  rw [readPrograms?]
  split
  -- where no segments are, the offset of their headers is not looked at
  · next hnone =>
    have hempty : d.segments = [] := List.length_eq_zero_iff.1 hnone
    rw [programs, placedSegments, hempty]
    rfl
  · have hrecords : records? d.bytes 32 52 d.segments.length = some d.programRecords :=
      records?_eq (fun _ => length_of_mem_programRecords) (length_programRecords d)
        d.stands.programs
    exact (congrArg _ hrecords).trans (congrArg some (map_decode_programRecords h))

theorem readSections?_bytes (h : d.IsWritable) :
    readSections? .narrow d.fileHeader d.bytes = some d.sectionHeaders := by
  have hrecords : records? d.bytes 40 d.sectionsOffset (d.sections.length + 1) =
      some d.sectionRecords :=
    records?_eq (fun _ => length_of_mem_sectionRecords) (length_sectionRecords d)
      d.stands.sections
  have hfirst : slice? d.bytes d.sectionsOffset 40 = some (List.replicate 40 0) := by
    have hheld : Holds d.bytes d.sectionsOffset (List.replicate 40 0) := d.stands.sections.left
    exact hheld.slice?_eq
  have hoffset : d.sectionsOffset ≠ 0 := by
    rw [sectionsOffset, symbolNamesOffset, symbolsOffset, contentsOffset]
    omega
  have hcount : max (d.sections.length + 1) 1 = d.sections.length + 1 := by omega
  have hsize : Encoding.narrow.sectionSize = 40 := rfl
  simp only [readSections?, fileHeader, hsize, hoffset, hfirst, Nat.succ_ne_zero, hcount, hrecords,
    if_false, Option.bind_eq_bind, Option.bind_some, Option.map_some, map_decode_sectionRecords h]

/-- The last section headers are those of the tables. The null section comes first, so they stand
    one place further than the sections of the segments count. -/
theorem exists_sectionHeaders (d : Draft) : ∃ (first : List SectionHeader) (i j k : Nat),
    d.sectionHeaders = first ++
      [d.symbolSection.described i,
        (tableSection ".strtab" d.symbolNamesOffset d.symbolNames).described j,
        (tableSection ".shstrtab" d.sectionNamesOffset d.sectionNames).described k] ∧
      first.length = d.segmentSections.length + 1 := by
  rw [sectionHeaders, placedSections, sections, placed_append, List.map_append]
  exact ⟨_ :: _, _, _, _, rfl, by rw [List.length_cons, List.length_map, length_placed]⟩

/-- A string table is read from the file if a header describes it. -/
theorem stringTable?_bytes {headers : List SectionHeader} {index offset k : Nat} {name : String}
    {names : List String} (h : d.IsWritable) (hname : IsName name) (hindex : index ≠ 0xffff)
    (hfound : headers[index]? = some ((tableSection name offset (.ofNames names)).described k))
    (hheld : Holds d.bytes offset (StringTable.ofNames names).bytes) :
    stringTable? headers d.bytes index = some (.ofNames names) := by
  have haddressable :
      ((tableSection name offset (.ofNames names)).described k).isAddressable = true :=
    (tableSection_standsIn h hname hheld).toFits.isAddressable
  have hslice : slice? d.bytes ((tableSection name offset (.ofNames names)).described k).offset
      ((tableSection name offset (.ofNames names)).described k).size =
        some (StringTable.ofNames names).bytes := hheld.slice?_eq
  simp only [stringTable?, if_neg hindex, hfound, haddressable, if_true, hslice, Option.bind_some,
    StringTable.ofBytes?_ofNames]

theorem readSymbols?_bytes (h : d.IsWritable) :
    readSymbols? .narrow d.sectionHeaders d.bytes = some (d.symbolEntries, d.symbolNames) := by
  obtain ⟨first, i, j, k, hheaders, hfirst⟩ := exists_sectionHeaders d
  have hfind : d.sectionHeaders.reverse.find? (·.isSymbols) =
      some (d.symbolSection.described i) := by
    rw [hheaders, List.reverse_append]
    rfl
  have hlink : d.sectionHeaders[d.segmentSections.length + 2]? =
      some ((tableSection ".strtab" d.symbolNamesOffset d.symbolNames).described j) := by
    rw [hheaders, List.getElem?_append_right (by omega), hfirst, Nat.add_sub_add_left]
    rfl
  have hcounted := h.counted
  rw [length_sections] at hcounted
  have hnames : stringTable? d.sectionHeaders d.bytes (d.segmentSections.length + 2) =
      some d.symbolNames :=
    stringTable?_bytes h (by decide) (by omega) hlink d.stands.symbolNames
  have hlength : d.symbolBytes.length = 16 * (d.symbols.length + 1) := by
    rw [symbolBytes, length_flatten fun _ => length_of_mem_symbolRecords, length_symbolRecords]
  have hcount : d.symbolBytes.length / 16 = d.symbols.length + 1 := by omega
  have hend := d.stands.symbols.end_le
  have hinside : ¬ d.bytes.length ≤ d.symbolsOffset := by omega
  have hrecords : records? d.bytes 16 d.symbolsOffset (d.symbols.length + 1) =
      some d.symbolRecords :=
    records?_eq (fun _ => length_of_mem_symbolRecords) (length_symbolRecords d) d.stands.symbols
  have hsize : Encoding.narrow.symbolSize = 16 := rfl
  have hentry : ¬ 16 = 0 := by decide
  simp only [readSymbols?, hfind, SectionDraft.described, symbolSection, hsize, hinside, hentry,
    hcount, hrecords, hnames, if_false, Option.bind_eq_bind, Option.bind_some,
    map_decode_symbolRecords h]

/-- A file that was written is read in full. -/
theorem parse?_bytes (h : d.IsWritable) : File.parse? d.bytes = some d.file := by
  obtain ⟨first, i, j, k, hheaders, hfirst⟩ := exists_sectionHeaders d
  have hident : slice? d.bytes 0 16 = some ident := d.stands.header.left.slice?_eq
  have hencoding : Encoding.ofIdent? ident = some .narrow := rfl
  have hheader : slice? d.bytes 0 Encoding.narrow.headerSize = some d.header :=
    d.stands.header.slice?_eq
  have hcounted := h.counted
  have hlength := length_sections d
  have hlast : d.sectionHeaders[d.sections.length]? =
      some ((tableSection ".shstrtab" d.sectionNamesOffset d.sectionNames).described k) := by
    rw [hheaders, List.getElem?_append_right (by omega), hfirst, hlength, Nat.add_sub_add_left]
    rfl
  have hnames : stringTable? d.sectionHeaders d.bytes d.fileHeader.nameSection =
      some d.sectionNames :=
    stringTable?_bytes h (by decide) (show d.sections.length ≠ 0xffff by omega) hlast
      d.stands.sectionNames
  simp only [File.parse?, hident, hencoding, hheader, decode_fileHeader h, readPrograms?_bytes h,
    readSections?_bytes h, readSymbols?_bytes h, hnames, Option.bind_eq_bind, Option.bind_some]
  rfl

end Draft

end BootImage.Elf
