import BootImage.Layout.Rules
import BootImage.LinkMap.Basic
import BootImage.Cursor
import BootImage.LinkMap.Routing
import BootImage.Log

/-! Linking inputs by a layout.

    The statements of every section become steps, and the cursor moves over them: segments from the
    load address on, each starting on a page, and every unloaded section from zero on its own. The
    steps of a section are known before any address is, so what is placed in which order does not
    depend on where. -/

namespace BootImage

open Word

/-- Moves the cursor over one step. A step that places an input covers the input alone. -/
def Step.move? (step : Step) (cursor : UInt64) : Option (Extent × UInt64) :=
  match step with
  | .symbol _ => some (⟨step, cursor, cursor⟩, cursor)
  | .align alignment => do
    let next ← Cursor.align? cursor alignment
    some (⟨step, cursor, next⟩, next)
  | .reserve size => do
    let next ← Cursor.advance? cursor size
    some (⟨step, cursor, next⟩, next)
  | .place input => do
    let start ← Cursor.align? cursor input.align
    let next ← Cursor.advance? start input.size
    some (⟨step, start, next⟩, next)

/-- The steps of one statement. -/
def Statement.steps (r : Routing) (slot : Slot) : Statement → List Step
  | .symbol name => [.symbol name]
  | .align alignment => [.align alignment]
  | .reserve size => [.reserve size]
  | .input rule => (r.inputsOf slot rule.order).map .place

/-- The steps of a section. -/
def Section.steps (r : Routing) (s : Section) : List Step :=
  s.statements.zipIdx.flatMap fun (statement, i) => statement.steps r ⟨s.name, i⟩

/-- The alignment of the start of a section: its own, or that of an input if it is larger. -/
def Section.startAlign (s : Section) (steps : List Step) : UInt64 :=
  ((steps.filterMap (·.input?)).map (·.align)).foldl max s.align

/-- Places a section at the cursor. -/
def Section.move? (r : Routing) (s : Section) (cursor : UInt64) :
    Option (MappedSection × UInt64) := do
  let steps := s.steps r
  let address ← Cursor.align? cursor (s.startAlign steps)
  let (extents, stop) ← Cursor.sweep? Step.move? steps address
  some (⟨s.name, s.contents, address, stop, extents⟩, stop)

/-- Places a segment on the next page. -/
def Segment.move? (r : Routing) (pageSize : UInt64) (s : Segment) (cursor : UInt64) :
    Option (MappedSegment × UInt64) := do
  let address ← Cursor.align? cursor pageSize
  let (sections, stop) ← Cursor.sweep? (·.move? r) s.sections address
  some (⟨s.name, s.permissions, address, stop, sections⟩, stop)

/-- Places an unloaded section, which starts at zero whatever lies beside it. -/
def Section.mapUnloaded? (r : Routing) (s : Section) : Option MappedSection :=
  (s.move? r 0).map (·.1)

/-- The start of the image: the first input of the first section of the code segment, if it is the
    entry section. -/
def entryAddress? (entrySection : String) (segments : List MappedSegment) : Option UInt64 := do
  let code ← segments.find? (·.permissions.execute)
  let leading ← code.sections.head?
  let first ← leading.placed.head?
  if first.name = entrySection then some first.address else none

/-- The first input whose alignment is no power of two. -/
def misaligned? (inputs : List Input) : Option Input := inputs.find? (!isPowerOfTwo ·.align)

namespace Layout

/-- Places the routed inputs, from the load address on. -/
def map? (d : Layout) (r : Routing) : Option (List MappedSegment × List MappedSection) := do
  let (segments, _) ← Cursor.sweep? (·.move? r d.pageSize) d.segments d.loadAddress
  let unloaded ← d.unloaded.mapM (·.mapUnloaded? r)
  some (segments, unloaded)

/-- Links the inputs; `collect` drops those that nothing refers to. -/
def link (d : Layout) (inputs : List Input) (collect : Bool) : Except Fault LinkMap :=
  match d.fault? with
  | some fault => .error fault
  | none =>
    match misaligned? inputs with
    | some input => .error (.badAlignment input.name input.align)
    | none =>
      let r := d.routing collect inputs
      match d.map? r with
      | none => .error (.addressOverflow addressLimit)
      | some (segments, unloaded) =>
        match entryAddress? d.entrySection segments with
        | none => .error (.missingEntrySection d.entrySection)
        | some entry =>
          let defined := segments.flatMap fun s => s.sections.flatMap (·.symbols)
          .ok {
            entry := entry
            segments := segments
            unloaded := unloaded
            symbols := (SymbolTable.ofList defined).insert d.entry entry
            orphans := r.orphans
            discarded := r.discarded }

end Layout

/-- What is worth telling while inputs are linked. -/
inductive LinkNote where
  | orphan (input : Input)
  | mapped (segment : MappedSegment)

open Number in
/-- The note as a log event. -/
def LinkNote.event : LinkNote → Log.Event
  | .orphan input =>
    ⟨.warn, "image_layout::plan",
      s!"orphan input section {input.name} ({hex input.size.toNat} bytes)"⟩
  | .mapped segment =>
    ⟨.debug, "image_layout::plan",
      s!"segment {segment.name} flags {segment.permissions.bits.toNat} at "
        ++ s!"{hex segment.address.toNat}..{hex segment.stop.toNat}"⟩

/-- What linking tells, also where it fails: the orphans up to the first input that cannot be
    aligned, then the segments up to the first that does not fit. -/
def Layout.linkNotes (d : Layout) (inputs : List Input) (collect : Bool) : List LinkNote :=
  if d.fault?.isSome then []
  else
    let r := d.routing collect (inputs.takeWhile (isPowerOfTwo ·.align))
    let mapped :=
      if (misaligned? inputs).isSome then []
      else Cursor.sweepFitting (·.move? r d.pageSize) d.segments d.loadAddress
    r.orphans.map .orphan ++ mapped.map .mapped

end BootImage
