import BootImage.Boot.Header
import BootImage.Elf.Difference
import BootImage.Image.Verify
import BootImage.LinkMap.Link

/-! What the commands print. -/

namespace BootImage.CommandLine

open Number

/-- The text with spaces after it up to a width. -/
def padRight (width : Nat) (text : String) : String :=
  text ++ String.ofList (List.replicate (width - text.length) ' ')

/-- The line of a placed input. -/
def placedLine (p : Placed) : String :=
  s!"    {padRight 24 p.name} {hexWord p.address.toNat} {hex p.size.toNat}"

/-- A section and what it holds; an empty one is not shown. -/
def sectionLines (s : MappedSection) : List String :=
  if s.size = 0 then []
  else
    s!"  {padRight 16 s.name} {hexWord s.address.toNat} {hex s.size.toNat}"
      :: s.placed.map placedLine

/-- The line of a segment. -/
def segmentLine (s : MappedSegment) : String :=
  s!"segment {padRight 8 s.name} {hexWord s.address.toNat} mem {hex s.memSize.toNat} "
    ++ s!"file {hex s.fileSize.toNat} flags {hex s.permissions.bits.toNat}"

/-- A link map, as it is printed. -/
def linkMapLines (m : LinkMap) : List String :=
  s!"entry {hexWord m.entry.toNat}"
    :: m.segments.flatMap (fun s => segmentLine s :: s.sections.flatMap sectionLines) ++
    m.symbols.entries.map (fun (name, value) => s!"symbol {name} {hexWord value.toNat}") ++
    m.orphans.map (fun i => s!"orphan {i.name}") ++
    m.discarded.map (fun i => s!"discarded {i.name}")

/-- The boot header of an image, if the file stores it at the entry. -/
def bootHeader? (f : Elf.File) : Option Boot.Header := do
  let bytes ← f.bytesAt? f.image.entry.toNat (Boot.entryBranchSize + Boot.headerSize)
  Boot.Header.read? bytes

/-- A boot header, as it is printed. -/
def headerLines : Option Boot.Header → List String
  | none => ["header: not stored in a loadable segment"]
  | some h =>
    ["header:",
      s!"  launch mode       {h.launchMode.name}",
      s!"  app id            {hex h.appId.toNat}",
      s!"  heap size         {hex h.heapSize.toNat}",
      s!"  linear heap size  {hex h.linearHeapSize.toNat}",
      s!"  arg list          {hex h.arguments.toNat}",
      s!"  run flags         {Boot.RunFlags.text ⟨h.runFlags⟩}"]

/-- The header of an image and its violations, as they are printed. -/
def verifyLines (f : Elf.File) : List String :=
  headerLines (bootHeader? f) ++ [reportText (Standard.layout.violations f.image)]

/-- The differences between two files, as they are printed. -/
def compareLines (first second : String) (a b : Elf.File) : List String :=
  match a.differences b with
  | [] => ["identical"]
  | differences => differences.map (·.text first second)

end BootImage.CommandLine
