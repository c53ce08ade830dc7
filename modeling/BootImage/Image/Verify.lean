import BootImage.Image.Basic
import BootImage.Image.Violation
import BootImage.Layout.Standard
import BootImage.Word

/-! Verifying an image against a layout.

    Every rule lists what it finds, and a report is all lists one after the other, so one look at an
    image shows all that is wrong with it. Sums and differences of addresses are taken in words. -/

namespace BootImage

open Word

/-- The first address past a segment in memory. -/
def LoadSegment.stop (s : LoadSegment) : UInt64 := s.address + s.memSize

/-- Data may be written here and not run. -/
def LoadSegment.isData (s : LoadSegment) : Bool := s.permissions.write && !s.permissions.execute

/-- The locations from `first` to `last` lie in the segment. -/
def LoadSegment.covers (s : LoadSegment) (first last : UInt64) : Bool :=
  s.address ≤ first && last ≤ s.stop

/-- A violation, where a rule is broken. -/
def reportIf (broken : Bool) (v : Violation) : List Violation := if broken then [v] else []

/-- The names of the two symbols that bound a range. -/
structure Bounds where
  first : String
  last : String

namespace Bounds

/-- The zeroed data. -/
def bss : Bounds := ⟨"__bss_start__", "__bss_end__"⟩

/-- The thread-local data. -/
def tls : Bounds := ⟨"__tls_start", "__tls_end"⟩

/-- The writable data that the file stores. -/
def data : Bounds := ⟨"__data_start__", "__data_end__"⟩

/-- The hooks that run first. -/
def preinit : Bounds := ⟨"__preinit_array_start", "__preinit_array_end"⟩

/-- The hooks that run last. -/
def init : Bounds := ⟨"__init_array_start", "__init_array_end"⟩

end Bounds

namespace Image

/-- The segments that take memory, with their positions in the file. -/
def loaded (f : Image) : List (Nat × LoadSegment) :=
  (f.segments.zipIdx.map fun (s, i) => (i, s)).filter (0 < ·.2.memSize)

/-- The two bounds of a range, if both are defined. -/
def range? (f : Image) (b : Bounds) : Option (UInt64 × UInt64) := do
  let first ← f.symbols.get? b.first
  let last ← f.symbols.get? b.last
  some (first, last)

/-- What is wrong with a range: its bounds are inverted, or else what `inOrder` finds. A range with
    a bound that is not defined is not looked at. -/
def rangeRule (f : Image) (b : Bounds) (inOrder : UInt64 → UInt64 → List Violation) :
    List Violation :=
  match f.range? b with
  | none => []
  | some (first, last) =>
    if last < first then [.rangeInverted b.first b.last] else inOrder first last

/-- A range that is not empty lies in one segment of data. -/
def writableRule (f : Image) (b : Bounds) (first last : UInt64) : List Violation :=
  reportIf (first != last && !f.segments.any fun s => s.isData && s.covers first last)
    (.rangeNotWritable b.first b.last)

/-- Zeroed data is made of whole words in one segment of data, holds the thread-local data, and
    lies below the end of the image. -/
def bssRule (f : Image) : List Violation :=
  f.rangeRule .bss fun first last =>
    reportIf (!isAligned first 4 || !isAligned last 4)
      (.rangeMisaligned Bounds.bss.first Bounds.bss.last 4) ++
    f.writableRule .bss first last ++
    (f.rangeRule .tls fun tlsFirst tlsLast =>
      reportIf (tlsFirst < first || last < tlsLast) .tlsOutsideBss) ++
    reportIf ((f.symbols.get? "__end__").any (· < last)) .endBeforeBss

/-- A hook list is a whole number of pointers in one segment of data. -/
def hookListRule (f : Image) (b : Bounds) : List Violation :=
  f.rangeRule b fun first last =>
    reportIf ((last - first) % Standard.pointerSize != 0 || !isAligned first Standard.pointerSize)
      (.notPointerMultiple b.first b.last Standard.pointerSize) ++
    f.writableRule b first last

/-- The entry symbol, the start of the code and the load address are the entry. -/
def entryRule (d : Layout) (f : Image) : List Violation :=
  (match f.symbols.get? d.entry with
    | some value => reportIf (value != f.entry) (.entryMismatch f.entry d.entry value)
    | none => []) ++
  reportIf ((f.segments.find? (·.permissions.execute)).map (·.address) != some f.entry)
    (.entryNotAtCodeStart f.entry) ++
  reportIf (f.entry != d.loadAddress) (.entryNotAtLoadAddress f.entry d.loadAddress)

/-- What is wrong with single segments. Their permissions have to come in the order of the layout,
    which may skip some: `declared` holds those still to come, and a segment that finds none of its
    kind among them leaves them as they are. -/
def permissionRules (pageSize : UInt64) :
    List Permissions → List (Nat × LoadSegment) → List Violation
  | _, [] => []
  | declared, (i, s) :: rest =>
    let found := declared.dropWhile (· != s.permissions)
    reportIf s.permissions.writeAndExecute (.writableAndExecutable i) ++
    reportIf found.isEmpty (.unexpectedPermissions i s.permissions.bits) ++
    reportIf (!isAligned s.address pageSize) (.misalignedSegment i s.address) ++
    reportIf (s.memSize < s.fileSize) (.fileSizeExceedsMemSize i) ++
    permissionRules pageSize (if found.isEmpty then declared else found.tail) rest

/-- No segment starts before the one ahead of it ends. -/
def overlapRule (segments : List (Nat × LoadSegment)) : List Violation :=
  (segments.zip segments.tail).flatMap fun ((i, a), (j, b)) =>
    reportIf (b.address < a.stop) (.segmentOverlap i j)

/-- The first segment that takes memory starts at the load address, and each is as the layout says;
    an image without such segments has nothing else to look at. -/
def segmentRule (d : Layout) (f : Image) : List Violation :=
  match f.loaded with
  | [] => [.noSegments]
  | (i, first) :: rest =>
    reportIf (first.address != d.loadAddress) (.wrongLoadAddress d.loadAddress first.address) ++
    permissionRules d.pageSize (d.segments.map (·.permissions)) ((i, first) :: rest) ++
    overlapRule ((i, first) :: rest)

/-- Every required symbol is defined. -/
def symbolRule (d : Layout) (f : Image) : List Violation :=
  (d.required.filter fun name => (f.symbols.get? name).isNone).map .missingSymbol

end Image

/-- All that is wrong with an image, rule by rule. -/
def Layout.violations (d : Layout) (f : Image) : List Violation :=
  f.entryRule d ++ f.segmentRule d ++ f.symbolRule d ++ f.bssRule ++
    f.rangeRule .data (f.writableRule .data) ++
    f.hookListRule .preinit ++ f.hookListRule .init

end BootImage
