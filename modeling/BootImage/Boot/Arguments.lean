import BootImage.Bytes

/-! The argument block.

    The block is a word that counts the arguments, and then each argument with a zero byte after it.
    A reader takes one argument at a time; it holds how many are left and the bytes of those.

        02 00 00 00   61 62 00   00   ..
        count = 2     "ab"       ""   not part of the arguments -/

namespace BootImage.Boot

/-- A reader of arguments. -/
structure Arguments where
  /-- How many are left. -/
  remaining : Nat
  /-- The bytes of those, each with its terminator. -/
  strings : List UInt8
  deriving DecidableEq

namespace Arguments

/-- The bytes of so many terminated strings at the front, if all of them are there. -/
def terminated? : Nat → List UInt8 → Option (List UInt8)
  | 0, _ => some []
  | _ + 1, [] => none
  | count + 1, b :: rest =>
    (terminated? (if b = 0 then count else count + 1) rest).map (b :: ·)

/-- A reader of the block, if the block holds as many arguments as it says. -/
def parse? (block : List UInt8) : Option Arguments := do
  let count ← Bytes.word? block 0
  let strings ← terminated? count.toNat (block.drop 4)
  some ⟨count.toNat, strings⟩

/-- The bytes of so many strings at the front, each up to and with its terminator. -/
def scan : Nat → List UInt8 → List UInt8
  | 0, _ => []
  | count + 1, bytes =>
    let string := bytes.takeWhile (· != 0)
    string ++ 0 :: scan count (bytes.drop (string.length + 1))

/-- A reader of a block that is known to hold as many arguments as it says. -/
def ofTrusted (block : List UInt8) : Arguments :=
  let count := Bytes.ofLittle (block.take 4)
  ⟨count, scan count (block.drop 4)⟩

/-- The next argument and the reader after it. -/
def next? (a : Arguments) : Option (List UInt8 × Arguments) :=
  if a.remaining = 0 then none
  else
    let argument := a.strings.takeWhile (· != 0)
    match a.strings.drop argument.length with
    | [] => none
    | _ :: rest => some (argument, ⟨a.remaining - 1, rest⟩)

/-- The argument after so many others, and the reader after it; the others are gone, too. -/
def nth : Nat → Arguments → Option (List UInt8) × Arguments
  | 0, a =>
    match a.next? with
    | none => (none, a)
    | some (argument, rest) => (some argument, rest)
  | n + 1, a =>
    match a.next? with
    | none => (none, a)
    | some (_, rest) => nth n rest

/-- The next argument, if there is one, and the reader after it. -/
def next (a : Arguments) : Option (List UInt8) × Arguments := nth 0 a

/-- At most so many of the next arguments. -/
def take : Nat → Arguments → List (List UInt8)
  | 0, _ => []
  | n + 1, a =>
    match a.next? with
    | none => []
    | some (argument, rest) => argument :: take n rest

/-- All arguments that are left. -/
def toList (a : Arguments) : List (List UInt8) := take a.remaining a

/-- The reader after all arguments that are left. -/
def drained (a : Arguments) : Arguments := (nth a.remaining a).2

/-- At least so many arguments are left, and at most so many. -/
def sizeHint (a : Arguments) : Nat × Option Nat := (a.remaining, some a.remaining)

/-- How many arguments are left. -/
def len (a : Arguments) : Nat := a.sizeHint.1

/-- The block that holds these arguments. -/
def block (arguments : List (List UInt8)) : List UInt8 :=
  Bytes.little 4 arguments.length ++ arguments.flatMap (· ++ [0])

end Arguments

end BootImage.Boot
