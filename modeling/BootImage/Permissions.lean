import BootImage.Number

/-! Bit sets with named bits.

    Segment permissions and run flags are words whose low bits have names. Bits without a name are
    kept, and the text of a set lists the names first and then what is left as one number. -/

namespace BootImage

/-- Every bit of `mask` is set. -/
def hasBits (bits mask : UInt32) : Bool := bits &&& mask == mask

/-- A mask is set if each of its bits is. -/
theorem hasBits_iff {bits mask : UInt32} : hasBits bits mask = true ↔
    ∀ i, mask.toNat.testBit i = true → bits.toNat.testBit i = true := by
  rw [hasBits, beq_iff_eq, ← UInt32.toNat_inj, UInt32.toNat_and]
  constructor
  · intro h i hi
    rw [← h, Nat.testBit_and, Bool.and_eq_true] at hi
    exact hi.1
  · intro h
    refine Nat.eq_of_testBit_eq fun i => ?_
    rw [Nat.testBit_and]
    cases hi : mask.toNat.testBit i with
    | false => exact Bool.and_false _
    | true => rw [h i hi, Bool.and_true]

/-- Two masks are set together if each of them is. -/
theorem hasBits_or (bits a b : UInt32) :
    hasBits bits (a ||| b) = (hasBits bits a && hasBits bits b) := by
  rw [Bool.eq_iff_iff, Bool.and_eq_true, hasBits_iff, hasBits_iff, hasBits_iff, ← forall_and]
  simp only [UInt32.toNat_or, Nat.testBit_or, Bool.or_eq_true, or_imp]

/-- The text of a set: its names in the order of declaration, then the bits without a name as one
    number, or a zero where no bit is set. -/
def flagText (typeName : String) (named : List (String × UInt32)) (bits : UInt32) : String :=
  let names := (named.filter fun n => hasBits bits n.2).map (·.1)
  let unnamed := bits &&& ~~~(named.foldl (fun mask n => mask ||| n.2) 0)
  let terms := if unnamed = 0 then names else names ++ [Number.hex unnamed.toNat]
  let shown := if terms.isEmpty then ["0x0"] else terms
  typeName ++ "(" ++ " | ".intercalate shown ++ ")"

/-- What may be done with the memory of a segment. -/
structure Permissions where
  bits : UInt32
  deriving DecidableEq, Inhabited

namespace Permissions

/-- Code may run. -/
def execute (p : Permissions) : Bool := hasBits p.bits 1

/-- Memory may be written. -/
def write (p : Permissions) : Bool := hasBits p.bits 2

/-- Memory may be read. -/
def read (p : Permissions) : Bool := hasBits p.bits 4

/-- Code could be written and then run, which no segment may allow. -/
def writeAndExecute (p : Permissions) : Bool := hasBits p.bits 3

theorem writeAndExecute_eq (p : Permissions) : p.writeAndExecute = (p.write && p.execute) :=
  hasBits_or p.bits 2 1

/-- Readable code. -/
def code : Permissions := ⟨5⟩

/-- Data that is only read. -/
def readOnly : Permissions := ⟨4⟩

/-- Data that is read and written. -/
def readWrite : Permissions := ⟨6⟩

/-- The permissions by name. -/
def text (p : Permissions) : String :=
  flagText "SegmentFlags" [("EXECUTE", 1), ("WRITE", 2), ("READ", 4)] p.bits

end Permissions

end BootImage
