import BootImage.Image.Basic
import BootImage.Positions

/-! Edits of an image. As with layouts, an edit that names what is not there answers `none`. -/

namespace BootImage

/-- An edit of one segment. -/
inductive LoadSegmentEdit where
  | permissions (value : Permissions)
  | address (value : UInt64)
  | memSize (value : UInt64)
  | fileSize (value : UInt64)

/-- The segment after an edit. -/
def LoadSegmentEdit.applyTo (s : LoadSegment) : LoadSegmentEdit → LoadSegment
  | .permissions value => { s with permissions := value }
  | .address value => { s with address := value }
  | .memSize value => { s with memSize := value }
  | .fileSize value => { s with fileSize := value }

/-- An edit of an image. -/
inductive ImageEdit where
  | entry (value : UInt64)
  | setSymbol (name : String) (value : UInt64)
  /-- Adds to the value of a symbol, modulo the word. -/
  | moveSymbol (name : String) (delta : Int)
  | removeSymbol (name : String)
  | pushSegment (segment : LoadSegment)
  | removeSegment (index : Nat)
  | swapSegments (first second : Nat)
  | editSegment (index : Nat) (edit : LoadSegmentEdit)

/-- The image after an edit, if what it names is there. -/
def ImageEdit.applyTo? (f : Image) : ImageEdit → Option Image
  | .entry value => some { f with entry := value }
  | .setSymbol name value => some { f with symbols := f.symbols.insert name value }
  | .moveSymbol name delta =>
    (f.symbols.get? name).map fun value =>
      { f with symbols := f.symbols.insert name (value + UInt64.ofInt delta) }
  | .removeSymbol name =>
    (f.symbols.get? name).map fun _ => { f with symbols := f.symbols.erase name }
  | .pushSegment segment => some { f with segments := f.segments ++ [segment] }
  | .removeSegment index => (removeAt? f.segments index).map fun l => { f with segments := l }
  | .swapSegments first second =>
    (swapAt? f.segments first second).map fun l => { f with segments := l }
  | .editSegment index edit =>
    (editAt? f.segments index fun s => some (edit.applyTo s)).map fun l => { f with segments := l }

end BootImage
