import BootImage.Permissions
import BootImage.Wildcard

/-! Layouts.

    A layout is an ordered list of segments, each mapped with one set of permissions and holding an
    ordered list of sections. A section is written as statements: define a symbol here, align, leave
    a gap, place the inputs that some wildcards match. Sections outside every segment collect what
    is not loaded, such as debug data.

        Layout ─┬─ segments ── Segment ── sections ── Section ── statements ── Statement
                └─ unloaded ───────────────────────── Section ── statements ── Statement -/

namespace BootImage

/-- The order of the inputs that one statement places. -/
inductive Order where
  /-- As they were listed. -/
  | listed
  /-- By the bytes of the name. -/
  | byName
  /-- By the number that ends the name. -/
  | byPriority
  deriving DecidableEq, Inhabited

/-- Which inputs a statement places, and how. -/
structure InputRule where
  /-- Wildcards, any of which may match. -/
  patterns : List String
  /-- What matches stays, also when nothing refers to it. -/
  keep : Bool := false
  order : Order := .listed
  deriving DecidableEq, Inhabited

/-- One statement of a section, about the location reached so far. -/
inductive Statement where
  | symbol (name : String)
  | align (alignment : UInt64)
  | reserve (size : UInt64)
  | input (rule : InputRule)
  deriving DecidableEq, Inhabited

/-- Whether the contents of a section stand in the file, or are zero when the image starts. -/
inductive Contents where
  | stored
  | zeroed
  deriving DecidableEq, Inhabited

/-- A section of the image. -/
structure Section where
  name : String
  /-- The least alignment of its start. -/
  align : UInt64 := 1
  contents : Contents := .stored
  statements : List Statement := []
  deriving DecidableEq, Inhabited

/-- A part of memory that is mapped with one set of permissions. -/
structure Segment where
  name : String
  permissions : Permissions
  sections : List Section := []
  deriving DecidableEq, Inhabited

/-- The layout of an image. -/
structure Layout where
  outputFormat : String
  outputArch : String
  /-- The symbol at which the image starts. -/
  entry : String
  /-- The input that holds that symbol. -/
  entrySection : String
  /-- The address of the first segment. -/
  loadAddress : UInt64
  /-- The alignment of every segment. -/
  pageSize : UInt64
  segments : List Segment
  unloaded : List Section
  /-- Symbols that the image must define. -/
  required : List String
  deriving DecidableEq, Inhabited

/-- The rule accepts an input of this name. -/
def InputRule.accepts (rule : InputRule) (name : String) : Bool :=
  rule.patterns.any fun p => Wildcard.accepts (.ofString p) (Text.encode name)

/-- The symbols that a section defines, in order. -/
def Section.symbols (s : Section) : List String :=
  s.statements.filterMap fun
    | .symbol name => some name
    | _ => none

/-- The rules of a section, in order. -/
def Section.rules (s : Section) : List InputRule :=
  s.statements.filterMap fun
    | .input rule => some rule
    | _ => none

namespace Layout

/-- The sections that lie in segments. -/
def loaded (d : Layout) : List Section := d.segments.flatMap (·.sections)

/-- All sections, the loaded ones first. -/
def sections (d : Layout) : List Section := d.loaded ++ d.unloaded

/-- The symbols that the layout defines, in order. -/
def symbols (d : Layout) : List String := d.sections.flatMap (·.symbols)

/-- The first segment of this name. -/
def segment? (d : Layout) (name : String) : Option Segment := d.segments.find? (·.name == name)

/-- The first section of this name. -/
def section? (d : Layout) (name : String) : Option Section := d.sections.find? (·.name == name)

/-- The first segment that holds code. -/
def codeSegment? (d : Layout) : Option Segment := d.segments.find? (·.permissions.execute)

end Layout

end BootImage
