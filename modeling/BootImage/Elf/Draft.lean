import BootImage.Elf.File

/-! Writing ELF files.

    A draft says what a file should hold: an entry, segments with their contents, and symbols. Each
    segment gets a section for its contents, and one more for the zeroed memory after them if there
    is any. The sections of the tables come last.

        0                         file header
        52                        program headers, one for each segment
        contentsOffset            contents of the segments, each padded
        symbolsOffset             symbols, the first of them null
        symbolNamesOffset         names of the symbols
        sectionNamesOffset        names of the sections, padded
        sectionsOffset            section headers, the first of them null

    Padding is up to a multiple of four. The headers and symbols before have sizes that are such
    multiples too, so what follows padded bytes starts at one. -/

namespace BootImage.Elf

namespace StringTable

/-- The bytes of a name in a table. -/
def entry (name : String) : List UInt8 := Text.encode name ++ [0]

/-- The table of names, in order. It starts with the empty name. -/
def ofNames (names : List String) : StringTable := ⟨0 :: names.flatMap entry⟩

end StringTable

/-- A name that a string table can give back. -/
structure IsName (name : String) : Prop where
  ne_empty : name ≠ ""
  no_zero : '\x00' ∉ name.toList

instance (name : String) : Decidable (IsName name) :=
  decidable_of_iff (name ≠ "" ∧ '\x00' ∉ name.toList)
    ⟨fun h => ⟨h.1, h.2⟩, fun h => ⟨h.ne_empty, h.no_zero⟩⟩

/-- A section to be written: what it is, and the rest of its header. -/
structure SectionDraft extends NamedSection where
  kind : Nat
  offset : Nat
  link : Nat := 0
  info : Nat := 0
  alignment : Nat
  entrySize : Nat := 0

/-- The header of the section, whose name stands at an offset. -/
def SectionDraft.header (s : SectionDraft) (name : Nat) : List UInt8 :=
  Bytes.words [name, s.kind, 0, s.address, s.offset, s.size, s.link, s.info, s.alignment,
    s.entrySize]

/-- A segment to be written. -/
structure SegmentDraft where
  /-- The name of the section with its contents. -/
  name : String
  permissions : Permissions
  address : UInt32
  data : List UInt8
  memSize : UInt32

namespace SegmentDraft

/-- The contents of the segment in the file. -/
def contents (s : SegmentDraft) : List UInt8 := Bytes.padded s.data

/-- The program header of the segment, whose contents stand at an offset. -/
def header (s : SegmentDraft) (offset : Nat) : List UInt8 :=
  Bytes.words [1, offset, s.address.toNat, s.address.toNat, s.data.length, s.memSize.toNat,
    s.permissions.bits.toNat, 0x1000]

/-- The section of the contents, which stand at an offset. -/
def stored (s : SegmentDraft) (offset : Nat) : SectionDraft where
  name := s.name
  address := s.address.toNat
  size := s.data.length
  data := s.data
  kind := 1
  offset := offset
  alignment := 4

/-- The section of the zeroed memory after the contents. -/
def zeroed (s : SegmentDraft) (offset : Nat) : SectionDraft where
  name := ".bss"
  address := s.address.toNat + s.data.length
  size := s.memSize.toNat - s.data.length
  data := []
  kind := 8
  offset := offset + s.data.length
  alignment := 4

/-- The sections of the segment. -/
def sections (s : SegmentDraft) (offset : Nat) : List SectionDraft :=
  if s.data.length < s.memSize.toNat then [s.stored offset, s.zeroed offset]
  else [s.stored offset]

/-- The segment can be described by its headers. -/
structure IsWritable (s : SegmentDraft) : Prop where
  named : IsName s.name
  covered : s.data.length ≤ s.memSize.toNat
  bounded : s.address.toNat + s.memSize.toNat < UInt32.size

instance (s : SegmentDraft) : Decidable s.IsWritable :=
  decidable_of_iff (IsName s.name ∧ s.data.length ≤ s.memSize.toNat ∧
      s.address.toNat + s.memSize.toNat < UInt32.size)
    ⟨fun h => ⟨h.1, h.2.1, h.2.2⟩, fun h => ⟨h.named, h.covered, h.bounded⟩⟩

end SegmentDraft

/-- A symbol whose name stands at an offset. It is global and absolute. -/
def symbolRecord (name : Nat) (value : UInt32) : List UInt8 :=
  Bytes.words [name, value.toNat, 0] ++ [0x10, 0] ++ Bytes.little 2 0xfff1

/-- What a file is written from. -/
structure Draft where
  entry : UInt32
  segments : List SegmentDraft
  symbols : List (String × UInt32)

namespace Draft

/-! ### Contents of the segments -/

def contentsOffset (d : Draft) : Nat := 52 + 32 * d.segments.length

def contents (d : Draft) : List UInt8 := d.segments.flatMap (·.contents)

/-- The segments with the offsets of their contents. -/
def placedSegments (d : Draft) : List (SegmentDraft × Nat) :=
  Bytes.placed (·.contents) d.contentsOffset d.segments

/-- The program headers. -/
def programRecords (d : Draft) : List (List UInt8) :=
  d.placedSegments.map fun p => p.1.header p.2

/-- The sections of all segments. -/
def segmentSections (d : Draft) : List SectionDraft :=
  d.placedSegments.flatMap fun p => p.1.sections p.2

/-! ### Symbols -/

def symbolsOffset (d : Draft) : Nat := d.contentsOffset + d.contents.length

def symbolNames (d : Draft) : StringTable := .ofNames (d.symbols.map (·.1))

/-- The symbols with the offsets of their names. -/
def placedSymbols (d : Draft) : List ((String × UInt32) × Nat) :=
  Bytes.placed (fun s => StringTable.entry s.1) 1 d.symbols

/-- The symbols in the file, the null symbol first. -/
def symbolRecords (d : Draft) : List (List UInt8) :=
  List.replicate 16 0 :: d.placedSymbols.map fun p => symbolRecord p.2 p.1.2

def symbolBytes (d : Draft) : List UInt8 := d.symbolRecords.flatten

def symbolNamesOffset (d : Draft) : Nat := d.symbolsOffset + d.symbolBytes.length

/-! ### Sections -/

def sectionNamesOffset (d : Draft) : Nat := d.symbolNamesOffset + d.symbolNames.bytes.length

/-- The names of the sections; the table of them has a name too. -/
def sectionNames (d : Draft) : StringTable :=
  .ofNames (d.segmentSections.map (·.name) ++ [".symtab", ".strtab", ".shstrtab"])

/-- The section of the symbols. It is linked to the next, which comes second after those of the
    segments and the null section. -/
def symbolSection (d : Draft) : SectionDraft where
  name := ".symtab"
  address := 0
  size := d.symbolBytes.length
  data := d.symbolBytes
  kind := 2
  offset := d.symbolsOffset
  link := d.segmentSections.length + 2
  info := 1
  alignment := 4
  entrySize := 16

/-- The section of a string table. -/
def tableSection (name : String) (offset : Nat) (table : StringTable) : SectionDraft where
  name := name
  address := 0
  size := table.bytes.length
  data := table.bytes
  kind := 3
  offset := offset
  alignment := 1

/-- The sections in the order of their headers, without the null section. -/
def sections (d : Draft) : List SectionDraft :=
  d.segmentSections ++
    [d.symbolSection, tableSection ".strtab" d.symbolNamesOffset d.symbolNames,
      tableSection ".shstrtab" d.sectionNamesOffset d.sectionNames]

/-- The sections with the offsets of their names. -/
def placedSections (d : Draft) : List (SectionDraft × Nat) :=
  Bytes.placed (fun s => StringTable.entry s.name) 1 d.sections

/-- The section headers, that of the null section first. -/
def sectionRecords (d : Draft) : List (List UInt8) :=
  List.replicate 40 0 :: d.placedSections.map fun p => p.1.header p.2

/-! ### The file -/

def nameBytes (d : Draft) : List UInt8 :=
  Bytes.padded (d.symbolNames.bytes ++ d.sectionNames.bytes)

def sectionsOffset (d : Draft) : Nat := d.symbolNamesOffset + d.nameBytes.length

/-- The first bytes of the file: narrow addresses, and the least significant byte first. -/
def ident : List UInt8 := [0x7f, 0x45, 0x4c, 0x46, 1, 1, 1, 0] ++ List.replicate 8 0

/-- The file header: an executable for the machine of all images. The number before the sizes of
    records is the version of the calling convention. -/
def header (d : Draft) : List UInt8 :=
  ident ++ ([2, armMachine].flatMap (Bytes.little 2)
    ++ Bytes.words [1, d.entry.toNat, 52, d.sectionsOffset, 0x05000400]
    ++ [52, 32, d.segments.length, 40, d.sections.length + 1, d.sections.length].flatMap
      (Bytes.little 2))

/-- The file of the draft. -/
def bytes (d : Draft) : List UInt8 :=
  d.header ++ d.programRecords.flatten ++ d.contents ++ d.symbolBytes ++ d.nameBytes
    ++ d.sectionRecords.flatten

/-- Everything in the draft has a place in the file, and the numbers that say where fit their
    fields. -/
structure IsWritable (d : Draft) : Prop where
  segments : ∀ s ∈ d.segments, s.IsWritable
  symbols : ∀ s ∈ d.symbols, IsName s.1
  bounded : d.bytes.length < UInt32.size
  counted : d.sections.length < 0xff00

instance (d : Draft) : Decidable d.IsWritable :=
  decidable_of_iff ((∀ s ∈ d.segments, s.IsWritable) ∧ (∀ s ∈ d.symbols, IsName s.1) ∧
      d.bytes.length < UInt32.size ∧ d.sections.length < 0xff00)
    ⟨fun h => ⟨h.1, h.2.1, h.2.2.1, h.2.2.2⟩,
      fun h => ⟨h.segments, h.symbols, h.bounded, h.counted⟩⟩

end Draft

end BootImage.Elf
