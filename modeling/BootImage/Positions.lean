/-! Edits of lists by position. An edit of a position that does not exist answers `none`. -/

namespace BootImage

variable {α : Type}

/-- The list with an element put before position `index`, which may be its end. -/
def insertAt? (l : List α) (index : Nat) (a : α) : Option (List α) :=
  if index ≤ l.length then some (l.insertIdx index a) else none

/-- The list without the element at a position. -/
def removeAt? (l : List α) (index : Nat) : Option (List α) :=
  if index < l.length then some (l.eraseIdx index) else none

/-- The list with the elements at two positions exchanged. -/
def swapAt? (l : List α) (first second : Nat) : Option (List α) := do
  let a ← l[first]?
  let b ← l[second]?
  some ((l.set first b).set second a)

/-- The list with one element edited. -/
def editAt? (l : List α) (index : Nat) (edit : α → Option α) : Option (List α) := do
  let a ← l[index]?
  let edited ← edit a
  some (l.set index edited)

end BootImage
