/-! Input sections, as the object files supply them. -/

namespace BootImage

/-- One input section. -/
structure Input where
  name : String
  /-- Its size in bytes. -/
  size : UInt64
  /-- The alignment that it needs. -/
  align : UInt64
  /-- Something that stays refers to it. -/
  retained : Bool := true
  deriving DecidableEq, Inhabited

end BootImage
