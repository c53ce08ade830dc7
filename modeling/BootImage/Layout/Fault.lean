import BootImage.Number

/-! Why a layout cannot be used, or its inputs cannot be placed. -/

namespace BootImage

/-- The first address that a 32-bit image cannot use. -/
def addressLimit : UInt64 := 0x100000000

/-- What is wrong with a layout or with the inputs given to it. -/
inductive Fault where
  | badAlignment (what : String) (value : UInt64)
  | unalignedLoadAddress (address pageSize : UInt64)
  | duplicateSegment (name : String)
  | duplicateSection (name : String)
  | writableAndExecutable (segment : String)
  | emptySegment (name : String)
  | duplicateSymbol (name : String)
  | missingSymbol (name : String)
  | entryNotFirst (entrySection : String)
  | codeNotFirst (segment : String)
  | missingEntrySection (name : String)
  | addressOverflow (limit : UInt64)
  deriving DecidableEq

open Number in
/-- The wording of a fault. -/
def Fault.message : Fault → String
  | .badAlignment what value =>
    s!"{what} alignment {hex value.toNat} is not a non-zero power of two"
  | .unalignedLoadAddress address pageSize =>
    s!"load address {hex address.toNat} is not aligned to the page size {hex pageSize.toNat}"
  | .duplicateSegment name => s!"segment `{name}` is declared more than once"
  | .duplicateSection name => s!"output section `{name}` is declared more than once"
  | .writableAndExecutable segment => s!"segment `{segment}` is both writable and executable"
  | .emptySegment name => s!"segment `{name}` carries no output sections"
  | .duplicateSymbol name => s!"symbol `{name}` is defined more than once"
  | .missingSymbol name => s!"required symbol `{name}` is not defined by the descriptor"
  | .entryNotFirst entrySection =>
    s!"the first placement of the code segment is not a kept `{entrySection}` input"
  | .codeNotFirst segment =>
    s!"segment `{segment}` is declared before the code segment, the entry would not sit at the "
      ++ "load address"
  | .missingEntrySection name =>
    s!"no input section named `{name}` was supplied, the image would have no entry code"
  | .addressOverflow limit => s!"the image does not fit below {hex limit.toNat}"

end BootImage
