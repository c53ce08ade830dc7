import BootImage.Layout.Basic
import BootImage.Layout.Fault
import BootImage.Word

/-! The rules that a usable layout follows.

    Each rule answers the first fault that it finds, and the rules are asked in a fixed order: the
    addresses, the segments, the sections, the symbols, the place of the entry. -/

namespace BootImage

open Word

/-- The alignment is no power of two. -/
def alignmentFault? (what : String) (value : UInt64) : Option Fault :=
  if isPowerOfTwo value then none else some (.badAlignment what value)

/-- The first name that already stands in `seen` or earlier in the list. -/
def firstRepeated? : List String → List String → Option String
  | _, [] => none
  | seen, name :: rest =>
    if name ∈ seen then some name else firstRepeated? (name :: seen) rest

/-- The first fault of the segments, given the names already `seen`. -/
def segmentFault? : List String → List Segment → Option Fault
  | _, [] => none
  | seen, s :: rest =>
    if s.name ∈ seen then some (.duplicateSegment s.name)
    else if s.permissions.writeAndExecute then some (.writableAndExecutable s.name)
    else if s.sections.isEmpty then some (.emptySegment s.name)
    else segmentFault? (s.name :: seen) rest

/-- The alignments that a section names: that of its start, and those of its statements. -/
def Section.alignments (s : Section) : List UInt64 :=
  s.align :: s.statements.filterMap fun
    | .align a => some a
    | _ => none

/-- The first fault of the sections, given the names already `seen`. -/
def sectionFault? : List String → List Section → Option Fault
  | _, [] => none
  | seen, s :: rest =>
    if s.name ∈ seen then some (.duplicateSection s.name)
    else
      match s.alignments.findSome? (alignmentFault? s.name) with
      | some fault => some fault
      | none => sectionFault? (s.name :: seen) rest

namespace Layout

/-- The page size is a power of two that divides a load address below the limit. -/
def addressFault? (d : Layout) : Option Fault :=
  if !isPowerOfTwo d.pageSize then some (.badAlignment "page size" d.pageSize)
  else if !isAligned d.loadAddress d.pageSize then
    some (.unalignedLoadAddress d.loadAddress d.pageSize)
  else if addressLimit ≤ d.loadAddress then some (.addressOverflow addressLimit)
  else none

/-- Every symbol is defined once, and the required ones are defined. -/
def symbolFault? (d : Layout) : Option Fault :=
  match firstRepeated? [] d.symbols with
  | some name => some (.duplicateSymbol name)
  | none => (d.required.find? (· ∉ d.symbols)).map .missingSymbol

/-- The first statement that takes space: the rule that it places, or `none` for a gap. -/
def leadingRule? : List Statement → Option InputRule
  | [] => none
  | .input rule :: _ => some rule
  | .reserve size :: rest => if 0 < size then none else leadingRule? rest
  | _ :: rest => leadingRule? rest

/-- The entry section comes first in the first section of the code segment. -/
def entryLeads (d : Layout) : Bool :=
  match (d.codeSegment?.bind (·.sections.head?)).bind (leadingRule? ·.statements) with
  | some rule => rule.keep && rule.patterns == [d.entrySection]
  | none => false

/-- The code segment is the first, and what it places first is the entry section, kept. -/
def entryFault? (d : Layout) : Option Fault :=
  match d.segments.head?.filter (!·.permissions.execute) with
  | some first => some (.codeNotFirst first.name)
  | none => if d.entryLeads then none else some (.entryNotFirst d.entrySection)

/-- The first fault of the layout, if it has any. -/
def fault? (d : Layout) : Option Fault :=
  d.addressFault? <|> segmentFault? [] d.segments <|> sectionFault? [] d.sections <|>
    d.symbolFault? <|> d.entryFault?

end Layout

end BootImage
