import BootImage.Bytes

/-! The records of an ELF file.

    The file header says how its numbers are encoded: with narrow or wide addresses, and in which
    byte order. Every other record has a fixed size for each width, and its fields stand at fixed
    offsets. Fields that nothing here looks at are passed over. -/

namespace BootImage.Elf

/-- How the numbers of a file are encoded. -/
structure Encoding where
  /-- Addresses and sizes take eight bytes instead of four. -/
  wide : Bool
  order : Bytes.Order
  deriving DecidableEq

namespace Encoding

/-- The value for the width of the encoding. -/
def pick (e : Encoding) (narrow wide : Nat) : Nat := if e.wide then wide else narrow

/-- A field of a record, at an offset that depends on the width. -/
def field (e : Encoding) (record : List UInt8) (narrow wide size : Nat) : Nat :=
  e.order.number ((record.drop (e.pick narrow wide)).take size)

/-- A field as wide as an address. -/
def address (e : Encoding) (record : List UInt8) (narrow wide : Nat) : Nat :=
  e.field record narrow wide (e.pick 4 8)

/-- The size of the file header. -/
def headerSize (e : Encoding) : Nat := e.pick 52 64

/-- The size of a program header. -/
def programSize (e : Encoding) : Nat := e.pick 32 56

/-- The size of a section header. -/
def sectionSize (e : Encoding) : Nat := e.pick 40 64

/-- The size of a symbol. -/
def symbolSize (e : Encoding) : Nat := e.pick 16 24

/-- The encoding that the first sixteen bytes of a file declare. -/
def ofIdent? : List UInt8 → Option Encoding
  | 0x7f :: 0x45 :: 0x4c :: 0x46 :: width :: order :: _ =>
    if (width = 1 ∨ width = 2) ∧ (order = 1 ∨ order = 2) then
      some ⟨width = 2, if order = 1 then .littleEndian else .bigEndian⟩
    else none
  | _ => none

end Encoding

/-- The file header. -/
structure Header where
  machine : Nat
  entry : Nat
  programOffset : Nat
  sectionOffset : Nat
  programCount : Nat
  sectionCount : Nat
  /-- The section that holds the names of sections. -/
  nameSection : Nat
  deriving DecidableEq

/-- Reads the file header. -/
def Header.decode (e : Encoding) (record : List UInt8) : Header where
  machine := e.field record 18 18 2
  entry := e.address record 24 24
  programOffset := e.address record 28 32
  sectionOffset := e.address record 32 40
  programCount := e.field record 44 56 2
  sectionCount := e.field record 48 60 2
  nameSection := e.field record 50 62 2

/-- What to map, and from where in the file. -/
structure ProgramHeader where
  kind : Nat
  permissions : Nat
  offset : Nat
  address : Nat
  fileSize : Nat
  memSize : Nat
  deriving DecidableEq

/-- Reads a program header; the permissions stand elsewhere where addresses are wide. -/
def ProgramHeader.decode (e : Encoding) (record : List UInt8) : ProgramHeader where
  kind := e.field record 0 0 4
  permissions := e.field record 24 4 4
  offset := e.address record 4 8
  address := e.address record 8 16
  fileSize := e.address record 16 32
  memSize := e.address record 20 40

/-- The header is one of a segment that is loaded. -/
def ProgramHeader.isLoad (p : ProgramHeader) : Bool := p.kind == 1

/-- What a section is, and where in the file. -/
structure SectionHeader where
  name : Nat
  kind : Nat
  address : Nat
  offset : Nat
  size : Nat
  link : Nat
  entrySize : Nat
  deriving DecidableEq

/-- Reads a section header. -/
def SectionHeader.decode (e : Encoding) (record : List UInt8) : SectionHeader where
  name := e.field record 0 0 4
  kind := e.field record 4 4 4
  address := e.address record 12 16
  offset := e.address record 16 24
  size := e.address record 20 32
  link := e.field record 24 40 4
  entrySize := e.address record 36 56

/-- The section is the table of symbols. -/
def SectionHeader.isSymbols (s : SectionHeader) : Bool := s.kind == 2

/-- The section takes no bytes of the file. -/
def SectionHeader.isZeroed (s : SectionHeader) : Bool := s.kind == 8

/-- The addresses of the bytes that the file holds do not pass the last address. -/
def SectionHeader.isAddressable (s : SectionHeader) : Bool :=
  s.isZeroed || s.size == 0 || s.address + s.size < UInt64.size

/-- A symbol, and the section that defines it. -/
structure Symbol where
  name : Nat
  value : Nat
  definedIn : Nat
  deriving DecidableEq

/-- Reads a symbol; its value comes last where addresses are wide. -/
def Symbol.decode (e : Encoding) (record : List UInt8) : Symbol where
  name := e.field record 0 0 4
  value := e.address record 4 8
  definedIn := e.field record 14 6 2

/-- Cuts bytes into so many records of a size. -/
def records (size : Nat) : Nat → List UInt8 → List (List UInt8)
  | 0, _ => []
  | count + 1, bytes => bytes.take size :: records size count (bytes.drop size)

/-- The records from an offset on, if the file holds all of them. -/
def records? (bytes : List UInt8) (size offset count : Nat) : Option (List (List UInt8)) :=
  (Bytes.slice? bytes offset (size * count)).map (records size count)

end BootImage.Elf
