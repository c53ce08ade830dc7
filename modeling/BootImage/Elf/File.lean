import BootImage.Elf.Records
import BootImage.Elf.StringTable
import BootImage.Image.Basic

/-! ELF files.

    A file is read as a whole: its headers, the names of its sections and its symbols all have to
    lie inside it. Then it has to be a 32-bit little-endian file for the expected machine. Sections
    that are only listed may lie outside the file; they have no contents then.

    The dynamic segment (`PT_DYNAMIC`), relocations and symbol versions are left out: nothing that
    is observed of an image comes from them. A reader of all of ELF looks at these too, and refuses
    a file in which they are broken; here such a file is accepted. -/

namespace BootImage.Elf

/-- Why a file is not accepted. -/
inductive Fault where
  | malformed
  | notNarrow
  | notLittleEndian
  | wrongMachine (machine : Nat)
  deriving DecidableEq

open Number in
/-- The wording of a fault. -/
def Fault.message : Fault → String
  | .malformed => "malformed ELF file"
  | .notNarrow => "not a 32 bit ELF file"
  | .notLittleEndian => "not a little-endian ELF file"
  | .wrongMachine machine => s!"machine {hex machine} is not ARM"

/-- The machine that images are made for. -/
def armMachine : Nat := 40

/-- A file with its tables. -/
structure File where
  encoding : Encoding
  header : Header
  programs : List ProgramHeader
  sections : List SectionHeader
  sectionNames : StringTable
  symbols : List Symbol
  symbolNames : StringTable
  bytes : List UInt8
  deriving DecidableEq

/-- The program headers; where there are none, their offset may be anything. -/
def readPrograms? (e : Encoding) (h : Header) (bytes : List UInt8) : Option (List ProgramHeader) :=
  if h.programCount = 0 then some []
  else
    (records? bytes e.programSize h.programOffset h.programCount).map (·.map (.decode e))

/-- The section headers. An offset of zero says that there are none; a count of zero says that the
    count stands in the size of the first, which is always present. -/
def readSections? (e : Encoding) (h : Header) (bytes : List UInt8) : Option (List SectionHeader) :=
  if h.sectionOffset = 0 then some []
  else do
    let first ← Bytes.slice? bytes h.sectionOffset e.sectionSize
    let count := if h.sectionCount = 0 then (SectionHeader.decode e first).size else h.sectionCount
    (records? bytes e.sectionSize h.sectionOffset (max count 1)).map (·.map (.decode e))

/-- The string table in the section of an index. The highest index says that the first section
    names it; an index past the last section gives the empty table. A table that is there has to
    lie inside the file, and its addresses inside the widest memory. -/
def stringTable? (sections : List SectionHeader) (bytes : List UInt8) (index : Nat) :
    Option StringTable :=
  let found := if index = 0xffff then sections.head?.bind fun s => sections[s.link]?
    else sections[index]?
  match found with
  | none => some .empty
  | some s =>
    if s.isAddressable then (Bytes.slice? bytes s.offset s.size).bind StringTable.ofBytes? else none

/-- The symbols of the last symbol table, and their names; a file may have none. -/
def readSymbols? (e : Encoding) (sections : List SectionHeader) (bytes : List UInt8) :
    Option (List Symbol × StringTable) :=
  match sections.reverse.find? (·.isSymbols) with
  | none => some ([], .empty)
  | some s =>
    if bytes.length ≤ s.offset then none
    else do
      let count := if s.entrySize = 0 then 0 else s.size / s.entrySize
      let found ← records? bytes e.symbolSize s.offset count
      let names ← stringTable? sections bytes s.link
      some (found.map (.decode e), names)

/-- Reads the tables of a file, whatever its encoding. -/
def File.parse? (bytes : List UInt8) : Option File := do
  let ident ← Bytes.slice? bytes 0 16
  let e ← Encoding.ofIdent? ident
  let record ← Bytes.slice? bytes 0 e.headerSize
  let h := Header.decode e record
  let programs ← readPrograms? e h bytes
  let sections ← readSections? e h bytes
  let sectionNames ← stringTable? sections bytes h.nameSection
  let (symbols, symbolNames) ← readSymbols? e sections bytes
  some ⟨e, h, programs, sections, sectionNames, symbols, symbolNames, bytes⟩

/-- Reads a file that has to hold an image. -/
def File.read (bytes : List UInt8) : Except Fault File :=
  match File.parse? bytes with
  | none => .error .malformed
  | some f =>
    if f.encoding.wide then .error .notNarrow
    else if f.encoding.order ≠ .littleEndian then .error .notLittleEndian
    else if f.header.machine ≠ armMachine then .error (.wrongMachine f.header.machine)
    else .ok f

/-- The stored bytes of the segment cover `size` addresses from `address` on. -/
def ProgramHeader.stores (p : ProgramHeader) (address size : Nat) : Bool :=
  p.isLoad && p.address ≤ address && address + size ≤ p.address + p.fileSize

/-- A section with its name and contents. -/
structure NamedSection where
  name : String
  address : Nat
  size : Nat
  /-- Its bytes in the file; none for a zeroed section. -/
  data : List UInt8
  deriving DecidableEq

namespace File

/-- The headers of the segments that are loaded. -/
def loads (f : File) : List ProgramHeader := f.programs.filter (·.isLoad)

/-- The name and value of a symbol that the file defines. -/
def defined? (f : File) (s : Symbol) : Option (String × UInt64) :=
  if s.definedIn = 0 then none
  else
    ((f.symbolNames.get? s.name).filter (· != "")).map fun name => (name, UInt64.ofNat s.value)

/-- What can be observed of the image in the file. -/
def image (f : File) : Image where
  entry := UInt64.ofNat f.header.entry
  segments := f.loads.map fun p =>
    ⟨⟨UInt32.ofNat p.permissions⟩, UInt64.ofNat p.address, UInt64.ofNat p.memSize,
      UInt64.ofNat p.fileSize⟩
  symbols := .ofList (f.symbols.filterMap f.defined?)

/-- A section that has a name and lies in the file. -/
def named? (f : File) (s : SectionHeader) : Option NamedSection := do
  let name ← (f.sectionNames.get? s.name).filter (· != "")
  let data ← if s.isZeroed then some [] else Bytes.slice? f.bytes s.offset s.size
  some ⟨name, s.address, s.size, data⟩

/-- The sections that have a name, in the order of their headers. -/
def namedSections (f : File) : List NamedSection := f.sections.filterMap f.named?

/-- The bytes that the file stores for some addresses, if one segment stores all of them. -/
def bytesAt? (f : File) (address size : Nat) : Option (List UInt8) := do
  let p ← f.programs.find? (·.stores address size)
  Bytes.slice? f.bytes (p.offset + (address - p.address)) size

end File

end BootImage.Elf
