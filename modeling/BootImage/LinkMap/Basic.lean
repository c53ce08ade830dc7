import BootImage.Image.Basic
import BootImage.Input
import BootImage.Layout.Basic

/-! Link maps.

    A link map says where everything went: each segment and section from its address to its stop,
    and in a section every step with the locations that it covers. What is placed and which symbols
    are defined is read off the steps.

        section.address                                                  section.stop
        |-- symbol --|-- align ---|-- place .text.main ---|-- reserve ---|
        start = stop  start..stop   start..start + size                                -/

namespace BootImage

/-- One step of filling a section, its input statements resolved to single inputs. -/
inductive Step where
  | symbol (name : String)
  | align (alignment : UInt64)
  | reserve (size : UInt64)
  | place (input : Input)
  deriving DecidableEq, Inhabited

/-- The input that the step places. -/
def Step.input? : Step → Option Input
  | .place input => some input
  | _ => none

/-- A step with the locations that it covers. -/
structure Extent where
  step : Step
  start : UInt64
  stop : UInt64
  deriving DecidableEq, Inhabited

/-- Where an input went. -/
structure Placed where
  name : String
  address : UInt64
  size : UInt64
  deriving DecidableEq, Inhabited

/-- What the step places; an input starts where its alignment put it. -/
def Extent.placed? (e : Extent) : Option Placed :=
  match e.step with
  | .place input => some ⟨input.name, e.start, input.size⟩
  | _ => none

/-- The symbol that the step defines, with its value. -/
def Extent.symbol? (e : Extent) : Option (String × UInt64) :=
  match e.step with
  | .symbol name => some (name, e.start)
  | _ => none

/-- Where a section went. -/
structure MappedSection where
  name : String
  contents : Contents
  address : UInt64
  stop : UInt64
  extents : List Extent
  deriving DecidableEq, Inhabited

namespace MappedSection

/-- Its size in memory. -/
def size (s : MappedSection) : UInt64 := s.stop - s.address

/-- The inputs of the section, in address order. -/
def inputs (s : MappedSection) : List Input := s.extents.filterMap (·.step.input?)

/-- Where the inputs of the section went, in address order. -/
def placed (s : MappedSection) : List Placed := s.extents.filterMap (·.placed?)

/-- The symbols of the section with their values, in order. -/
def symbols (s : MappedSection) : List (String × UInt64) := s.extents.filterMap (·.symbol?)

end MappedSection

/-- Where a segment went. -/
structure MappedSegment where
  name : String
  permissions : Permissions
  address : UInt64
  stop : UInt64
  sections : List MappedSection
  deriving DecidableEq, Inhabited

namespace MappedSegment

/-- Its size in memory. -/
def memSize (s : MappedSegment) : UInt64 := s.stop - s.address

/-- The end of its last stored section, or its address if none is stored. -/
def fileStop (s : MappedSegment) : UInt64 :=
  ((s.sections.filter (·.contents == .stored)).map (·.stop)).foldl max s.address

/-- Its size in the file, which zeroed sections at its end do not add to. -/
def fileSize (s : MappedSegment) : UInt64 := s.fileStop - s.address

/-- A segment is loaded only if one of its sections has a size. -/
def isLoaded (s : MappedSegment) : Bool := s.sections.any (0 < ·.size)

/-- What the segment is in a finished image. -/
def summary (s : MappedSegment) : LoadSegment := ⟨s.permissions, s.address, s.memSize, s.fileSize⟩

end MappedSegment

/-- Where everything went. -/
structure LinkMap where
  entry : UInt64
  segments : List MappedSegment
  unloaded : List MappedSection
  /-- The symbols of the loaded sections, and the entry. -/
  symbols : SymbolTable
  /-- The inputs that no statement places. -/
  orphans : List Input
  /-- The inputs that nothing refers to. -/
  discarded : List Input
  deriving DecidableEq, Inhabited

namespace LinkMap

/-- All sections, the loaded ones first. -/
def sections (m : LinkMap) : List MappedSection := m.segments.flatMap (·.sections) ++ m.unloaded

/-- The first section of this name. -/
def section? (m : LinkMap) (name : String) : Option MappedSection :=
  m.sections.find? (·.name == name)

/-- What is placed in segments, with the segment, in address order. -/
def placed (m : LinkMap) : List (MappedSegment × Placed) :=
  m.segments.flatMap fun s => (s.sections.flatMap (·.placed)).map fun p => (s, p)

/-- What can be observed of an image that is linked by this map. -/
def image (m : LinkMap) : Image where
  entry := m.entry
  segments := (m.segments.filter (·.isLoaded)).map (·.summary)
  symbols := m.symbols

end LinkMap

end BootImage
