import BootImage.Permissions
import BootImage.SymbolTable

/-! Finished images, as far as they can be observed: the entry, the segments that are loaded, and
    the symbols. -/

namespace BootImage

/-- One segment that the loader maps. -/
structure LoadSegment where
  permissions : Permissions
  address : UInt64
  memSize : UInt64
  fileSize : UInt64
  deriving DecidableEq, Inhabited

/-- What can be observed of an image. -/
structure Image where
  entry : UInt64
  /-- The segments, in the order of the file. -/
  segments : List LoadSegment
  symbols : SymbolTable
  deriving DecidableEq, Inhabited

end BootImage
