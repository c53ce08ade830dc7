import BootImage.Layout.Fault
import BootImage.Word

/-! The location cursor.

    Placing anything moves a cursor upwards: to the next multiple of an alignment, or by a size. The
    cursor may reach the limit but not pass it; a move that would is `none`. A sweep moves the
    cursor over a list and collects what each element gives. -/

namespace BootImage.Cursor

open Word

/-- A location that does not lie past the limit. -/
def within? (location : UInt64) : Option UInt64 :=
  if location ≤ addressLimit then some location else none

/-- Moves to the next multiple of an alignment. -/
def align? (cursor alignment : UInt64) : Option UInt64 := (alignUp? cursor alignment).bind within?

/-- Moves by a size. -/
def advance? (cursor size : UInt64) : Option UInt64 := (add? cursor size).bind within?

variable {α β : Type}

/-- Takes the elements in order, each from where the one before left the cursor. -/
def sweep? (move : α → UInt64 → Option (β × UInt64)) :
    List α → UInt64 → Option (List β × UInt64)
  | [], cursor => some ([], cursor)
  | a :: rest, cursor => do
    let (b, next) ← move a cursor
    let (bs, stop) ← sweep? move rest next
    some (b :: bs, stop)

/-- What the elements give up to the first that cannot be taken. -/
def sweepFitting (move : α → UInt64 → Option (β × UInt64)) : List α → UInt64 → List β
  | [], _ => []
  | a :: rest, cursor =>
    match move a cursor with
    | some (b, next) => b :: sweepFitting move rest next
    | none => []

end BootImage.Cursor
