import BootImage.Input
import BootImage.Layout.Basic
import BootImage.Number

/-! Routing inputs to statements.

    An input goes to the first statement that accepts its name: sections in order, the loaded ones
    first, and statements in order. What goes nowhere is an orphan. Where unreferenced inputs are
    collected, one is dropped unless its statement keeps it.

        inputs ──┬── discarded
                 ├── orphans
                 └── pool: each input with the slot of its statement -/

namespace BootImage

/-- Names a statement: its section, and its position in it. -/
structure Slot where
  sectionName : String
  statement : Nat
  deriving DecidableEq, Inhabited

/-- The input statements of a section, with their positions. -/
def Section.slots (s : Section) : List (Slot × InputRule) :=
  s.statements.zipIdx.filterMap fun
    | (.input rule, i) => some (⟨s.name, i⟩, rule)
    | _ => none

/-- The input statements of a layout, in the order in which they are asked. -/
def Layout.slots (d : Layout) : List (Slot × InputRule) := d.sections.flatMap (·.slots)

/-- The first of some statements that accepts a name. -/
def route? (slots : List (Slot × InputRule)) (name : String) : Option (Slot × InputRule) :=
  slots.find? fun s => s.2.accepts name

/-- The priority of what comes last. -/
def lastPriority : UInt64 := 0xffffffffffffffff

/-- The number after the last dot of a name; a name without such a number comes last. -/
def priority (name : String) : UInt64 :=
  match name.toList.reverse.span (· != '.') with
  | (_, []) => lastPriority
  | (suffix, _ :: _) =>
    match Number.readUnsigned 10 suffix.reverse with
    | .ok n => UInt64.ofNat n
    | .error _ => lastPriority

/-- Puts inputs in order; inputs that the order does not tell apart stay as they were listed. -/
def Order.arrange : Order → List Input → List Input
  | .listed, inputs => inputs
  | .byName, inputs => inputs.mergeSort fun a b => decide (a.name ≤ b.name)
  | .byPriority, inputs => inputs.mergeSort fun a b => decide (priority a.name ≤ priority b.name)

/-- Where the inputs go. -/
structure Routing where
  /-- The inputs that stay, each with the slot of its statement, as listed. -/
  pool : List (Slot × Input)
  orphans : List Input
  discarded : List Input

/-- An input that is dropped when unreferenced ones are: its statement, if any, does not keep it. -/
def isUnreferenced (input : Input) (route : Option (Slot × InputRule)) : Bool :=
  !input.retained && !route.any (·.2.keep)

/-- Routes the inputs; `collect` drops those that nothing refers to. -/
def Layout.routing (d : Layout) (collect : Bool) (inputs : List Input) : Routing :=
  let slots := d.slots
  let routed := inputs.map fun i => (i, route? slots i.name)
  let stays := routed.filter fun r => !(collect && isUnreferenced r.1 r.2)
  { pool := stays.filterMap fun r => r.2.map fun route => (route.1, r.1)
    orphans := (stays.filter (·.2.isNone)).map (·.1)
    discarded := (routed.filter fun r => collect && isUnreferenced r.1 r.2).map (·.1) }

/-- The inputs of one statement, in its order. -/
def Routing.inputsOf (r : Routing) (slot : Slot) (order : Order) : List Input :=
  order.arrange ((r.pool.filter (·.1 == slot)).map (·.2))

end BootImage
