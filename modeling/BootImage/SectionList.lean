import BootImage.Input
import BootImage.Number

/-! Section lists.

    A list names one input a line: its name, its size and its alignment, and `unreferenced` if
    nothing refers to it. Blank lines and lines that start with `#` say nothing. The first line that
    is not of this form is reported with its number, and lines that say nothing are counted, too.

        .crt0              0x44   4
        .text.unused       0x10   4  unreferenced -/

namespace BootImage.SectionList

open Text

/-- What is wrong with a line. -/
inductive Cause where
  | unknownAttribute (text : String)
  | fieldCount
  | badNumber (field : String) (fault : Number.Fault)
  deriving DecidableEq

/-- The wording of a cause. -/
def Cause.message : Cause → String
  | .unknownAttribute text => s!"unknown attribute `{text}`"
  | .fieldCount => "expected `name size align [unreferenced]`"
  | .badNumber field fault => s!"`{field}` is not a number: {fault.message}"

/-- The first line, from one, that is not well formed. -/
structure Fault where
  line : Nat
  cause : Cause
  deriving DecidableEq

/-- The wording of a fault: the line, and what is wrong with it. -/
def Fault.message (f : Fault) : String := s!"line {f.line}: {f.cause.message}"

/-- The number in a field. -/
def readNumber (field : List Char) : Except Cause UInt64 :=
  (Number.parse field).mapError (.badNumber (String.ofList field))

/-- The input of three fields. -/
def readInput (name size align : List Char) (retained : Bool) : Except Cause Input := do
  let size ← readNumber size
  let align ← readNumber align
  .ok ⟨String.ofList name, size, align, retained⟩

/-- The only attribute that a line may give. -/
def unreferenced : List Char := "unreferenced".toList

/-- The input of the fields of a line. An attribute that is not known is reported before the number
    of fields is looked at. -/
def readFields : List (List Char) → Except Cause Input
  | [name, size, align] => readInput name size align true
  | name :: size :: align :: mark :: more =>
    if mark ≠ unreferenced then .error (.unknownAttribute (String.ofList mark))
    else if more.isEmpty then readInput name size align false
    else .error .fieldCount
  | _ => .error .fieldCount

/-- The line says something. -/
def isSignificant (line : List Char) : Bool :=
  match trim line with
  | [] => false
  | c :: _ => c != '#'

/-- The lines that say something, with their numbers from one. -/
def significantLines (text : List Char) : List (List Char × Nat) :=
  ((lines text).zipIdx 1).filter (isSignificant ·.1)

/-- Reads a line, and reports it by its number. -/
def readLine (line : List Char × Nat) : Except Fault Input :=
  (readFields (words line.1)).mapError (⟨line.2, ·⟩)

/-- Reads a section list. -/
def parse (text : List Char) : Except Fault (List Input) := (significantLines text).mapM readLine

end BootImage.SectionList
