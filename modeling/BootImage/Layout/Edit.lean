import BootImage.Layout.Basic
import BootImage.Positions

/-! Edits of a layout.

    An edit names what it changes by position. An edit whose position does not exist answers `none`
    and changes nothing. Edits do not look at the rules, so an edited layout may break them. -/

namespace BootImage

/-- An edit of the statements or the head of one section. -/
inductive SectionEdit where
  | rename (name : String)
  | align (alignment : UInt64)
  | zeroed
  | append (statement : Statement)
  | insert (index : Nat) (statement : Statement)
  | remove (index : Nat)
  | swap (first second : Nat)

/-- An edit of a layout; sections are those of a segment, or the unloaded ones for `none`. -/
inductive LayoutEdit where
  | loadAddress (value : UInt64)
  | pageSize (value : UInt64)
  | entry (name : String)
  | entrySection (name : String)
  | outputFormat (name : String)
  | outputArch (name : String)
  | require (symbol : String)
  | unrequire (symbol : String)
  | insertSegment (index : Nat) (segment : Segment)
  | removeSegment (index : Nat)
  | swapSegments (first second : Nat)
  | permissions (index : Nat) (value : Permissions)
  | renameSegment (index : Nat) (name : String)
  | clearSections (index : Nat)
  | addSection (segment : Option Nat) (added : Section)
  | inSection (segment : Option Nat) (index : Nat) (edit : SectionEdit)

/-- The section after an edit, if the positions that it names exist. -/
def SectionEdit.applyTo? (s : Section) : SectionEdit → Option Section
  | .rename name => some { s with name := name }
  | .align alignment => some { s with align := alignment }
  | .zeroed => some { s with contents := .zeroed }
  | .append statement => some { s with statements := s.statements ++ [statement] }
  | .insert index statement =>
    (insertAt? s.statements index statement).map fun l => { s with statements := l }
  | .remove index => (removeAt? s.statements index).map fun l => { s with statements := l }
  | .swap first second =>
    (swapAt? s.statements first second).map fun l => { s with statements := l }

namespace Layout

/-- The layout with its segments edited. -/
def withSegments? (d : Layout) (edited : Option (List Segment)) : Option Layout :=
  edited.map fun l => { d with segments := l }

/-- The layout with the sections of one segment edited, or the unloaded ones for `none`. -/
def editSections? (d : Layout) (segment : Option Nat)
    (edit : List Section → Option (List Section)) : Option Layout :=
  match segment with
  | some index =>
    d.withSegments? <| editAt? d.segments index fun s =>
      (edit s.sections).map fun l => { s with sections := l }
  | none => (edit d.unloaded).map fun l => { d with unloaded := l }

end Layout

/-- The layout after an edit, if the positions that it names exist. -/
def LayoutEdit.applyTo? (d : Layout) : LayoutEdit → Option Layout
  | .loadAddress value => some { d with loadAddress := value }
  | .pageSize value => some { d with pageSize := value }
  | .entry name => some { d with entry := name }
  | .entrySection name => some { d with entrySection := name }
  | .outputFormat name => some { d with outputFormat := name }
  | .outputArch name => some { d with outputArch := name }
  | .require symbol => some { d with required := d.required ++ [symbol] }
  | .unrequire symbol => some { d with required := d.required.filter (· != symbol) }
  | .insertSegment index segment => d.withSegments? (insertAt? d.segments index segment)
  | .removeSegment index => d.withSegments? (removeAt? d.segments index)
  | .swapSegments first second => d.withSegments? (swapAt? d.segments first second)
  | .permissions index value =>
    d.withSegments? <| editAt? d.segments index fun s => some { s with permissions := value }
  | .renameSegment index name =>
    d.withSegments? <| editAt? d.segments index fun s => some { s with name := name }
  | .clearSections index =>
    d.withSegments? <| editAt? d.segments index fun s => some { s with sections := [] }
  | .addSection segment added => d.editSections? segment fun l => some (l ++ [added])
  | .inSection segment index edit =>
    d.editSections? segment fun l => editAt? l index (edit.applyTo? ·)

end BootImage
