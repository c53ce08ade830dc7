import BootImage.Text.Blank

/-! Number notation.

    Settings and section lists write numbers in decimal, or in hexadecimal behind `0x` or `0X`.
    Separators `_` may stand anywhere and count for nothing; one sign `+` may lead the digits. The
    digits are read left to right, and the first that cannot be taken decides the fault: it is no
    digit of the radix, or it takes the value past 64 bits.

        " 0x10_00 "  -- trim -->  "0x10_00"  -- marker -->  16, "10_00"  -- drop '_' -->  "1000" -/

namespace BootImage.Number

open Text

/-- Why a text is no number. -/
inductive Fault where
  | empty
  | invalidDigit
  | tooLarge
  deriving DecidableEq

/-- The wording of a fault. -/
def Fault.message : Fault → String
  | .empty => "cannot parse integer from empty string"
  | .invalidDigit => "invalid digit found in string"
  | .tooLarge => "number too large to fit in target type"

/-- The value of a digit in `radix`, letters of either case standing for ten and up. -/
def digit? (radix : Nat) (c : Char) : Option Nat :=
  let value :=
    if '0' ≤ c ∧ c ≤ '9' then c.toNat - '0'.toNat
    else if 'a' ≤ c ∧ c ≤ 'z' then c.toNat - 'a'.toNat + 10
    else if 'A' ≤ c ∧ c ≤ 'Z' then c.toNat - 'A'.toNat + 10
    else radix
  if value < radix then some value else none

/-- Takes digits after those already worth `value`, up to the end or the first that cannot be. -/
def readDigits (radix : Nat) : List Char → Nat → Except Fault Nat
  | [], value => .ok value
  | c :: rest, value =>
    match digit? radix c with
    | none => .error .invalidDigit
    | some d =>
      if value * radix + d < UInt64.size then readDigits radix rest (value * radix + d)
      else .error .tooLarge

/-- Reads digits with at most one sign `+` before them; a sign alone has no digit. -/
def readUnsigned (radix : Nat) : List Char → Except Fault Nat
  | [] => .error .empty
  | ['+'] => .error .invalidDigit
  | '+' :: digits => readDigits radix digits 0
  | digits => readDigits radix digits 0

/-- The radix that a leading marker chooses, and the text after the marker. -/
def splitRadix : List Char → Nat × List Char
  | '0' :: 'x' :: digits => (16, digits)
  | '0' :: 'X' :: digits => (16, digits)
  | digits => (10, digits)

/-- The number that a text denotes. -/
def parse (text : List Char) : Except Fault UInt64 :=
  let (radix, digits) := splitRadix (trim text)
  (readUnsigned radix (digits.filter (· != '_'))).map UInt64.ofNat

/-- The digits of `n` in lower-case hexadecimal, none of them leading zeros. -/
def hexDigits (n : Nat) : List Char := Nat.toDigits 16 n

/-- The number in hexadecimal behind its marker. -/
def hex (n : Nat) : String := "0x" ++ String.ofList (hexDigits n)

/-- The number in hexadecimal behind its marker, with leading zeros up to eight digits. -/
def hexWord (n : Nat) : String :=
  let digits := hexDigits n
  "0x" ++ String.ofList (List.replicate (8 - digits.length) '0' ++ digits)

end BootImage.Number
