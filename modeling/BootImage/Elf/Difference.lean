import BootImage.Elf.File

/-! Differences between two files.

    Two files are compared by their entries, by their loaded segments position by position, and by
    their sections name by name. A section is compared with the first of its name in the other file.
    Nothing else in the files counts. -/

namespace BootImage.Elf

/-- One way in which two files differ. -/
inductive Difference where
  | entry
  | segment (index : Nat)
  | contents (name : String)
  | missingInSecond (name : String)
  | missingInFirst (name : String)
  deriving DecidableEq

/-- The line that shows a difference between two files of these names. -/
def Difference.text (first second : String) : Difference → String
  | .entry => "differs  entry"
  | .segment index => s!"differs  segment {index}"
  | .contents name => s!"differs  {name}"
  | .missingInSecond name => s!"missing  {name} in {second}"
  | .missingInFirst name => s!"missing  {name} in {first}"

/-- The positions at which two lists of segments do not hold the same. -/
def segmentDifferences (a b : List LoadSegment) : List Difference :=
  ((List.range (max a.length b.length)).filter fun i => a[i]? != b[i]?).map .segment

/-- What is different about a section of the first file. -/
def sectionDifference? (others : List NamedSection) (s : NamedSection) : Option Difference :=
  match others.find? (·.name == s.name) with
  | none => some (.missingInSecond s.name)
  | some other => if other = s then none else some (.contents s.name)

/-- The sections that differ, and those that only one side has. -/
def sectionDifferences (a b : List NamedSection) : List Difference :=
  a.filterMap (sectionDifference? b) ++
    (b.filter fun s => !a.any (·.name == s.name)).map fun s => .missingInFirst s.name

/-- All differences between two files. -/
def File.differences (a b : File) : List Difference :=
  (if a.image.entry = b.image.entry then [] else [.entry]) ++
    segmentDifferences a.image.segments b.image.segments ++
    sectionDifferences a.namedSections b.namedSections

end BootImage.Elf
