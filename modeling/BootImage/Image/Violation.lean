import BootImage.Number

/-! How an image can break its layout. -/

namespace BootImage

/-- One way in which an image breaks its layout; segments are named by their position. -/
inductive Violation where
  | entryMismatch (entry : UInt64) (symbol : String) (value : UInt64)
  | entryNotAtCodeStart (entry : UInt64)
  | entryNotAtLoadAddress (entry expected : UInt64)
  | wrongLoadAddress (expected found : UInt64)
  | noSegments
  | writableAndExecutable (segment : Nat)
  | unexpectedPermissions (segment : Nat) (permissions : UInt32)
  | misalignedSegment (segment : Nat) (address : UInt64)
  | segmentOverlap (first second : Nat)
  | fileSizeExceedsMemSize (segment : Nat)
  | missingSymbol (name : String)
  | rangeInverted (first last : String)
  | rangeMisaligned (first last : String) (align : UInt64)
  | rangeNotWritable (first last : String)
  | notPointerMultiple (first last : String) (size : UInt64)
  | tlsOutsideBss
  | endBeforeBss
  deriving DecidableEq

open Number in
/-- The wording of a violation. -/
def Violation.message : Violation → String
  | .entryMismatch entry symbol value =>
    s!"entry {hex entry.toNat} differs from `{symbol}` at {hex value.toNat}"
  | .entryNotAtCodeStart entry =>
    s!"entry {hex entry.toNat} is not the start of the code segment"
  | .entryNotAtLoadAddress entry expected =>
    s!"entry {hex entry.toNat} is not the load address {hex expected.toNat}"
  | .wrongLoadAddress expected found =>
    s!"the first segment starts at {hex found.toNat}, expected {hex expected.toNat}"
  | .noSegments => "the image has no loadable segments"
  | .writableAndExecutable segment => s!"segment {segment} is both writable and executable"
  | .unexpectedPermissions segment permissions =>
    s!"segment {segment} has flags {hex permissions.toNat}, which the layout does not declare at "
      ++ "this position"
  | .misalignedSegment segment address =>
    s!"segment {segment} at {hex address.toNat} is not page aligned"
  | .segmentOverlap first second => s!"segment {second} starts before segment {first} ends"
  | .fileSizeExceedsMemSize segment => s!"segment {segment} stores more bytes than it maps"
  | .missingSymbol name => s!"required symbol `{name}` is not defined"
  | .rangeInverted first last => s!"`{first}` lies above `{last}`"
  | .rangeMisaligned first last align =>
    s!"`{first}`..`{last}` is not {align.toNat}-byte aligned"
  | .rangeNotWritable first last =>
    s!"`{first}`..`{last}` is not inside a single writable segment"
  | .notPointerMultiple first last size =>
    s!"`{first}`..`{last}` is not a whole number of {size.toNat}-byte entries"
  | .tlsOutsideBss => "the thread-local placeholder is not inside the uninitialized-data range"
  | .endBeforeBss => "`__end__` lies below `__bss_end__`"

/-- The text of a report: a line for each violation, or that there is none. -/
def reportText : List Violation → String
  | [] => "no violations"
  | violations => "\n".intercalate (violations.map (·.message))

end BootImage
