import BootImage.Bytes
import BootImage.Text.Utf8

/-! The service list.

    A launcher hands over handles of services that it has opened. The list is a word that counts the
    entries, and then entries of twelve bytes: a name of at most eight bytes, filled up with zero
    bytes, and a handle. -/

namespace BootImage.Boot

/-- A service with the handle to use for it. -/
structure Service where
  name : List UInt8
  handle : UInt32
  deriving DecidableEq

namespace Service

/-- The name takes so many bytes of an entry. -/
def nameSize : Nat := 8

/-- An entry takes so many bytes. -/
def entrySize : Nat := 12

/-- Reads an entry; the name ends at its first zero byte. -/
def decode (entry : List UInt8) : Service where
  name := (entry.take nameSize).takeWhile (· != 0)
  handle := UInt32.ofNat (Bytes.ofLittle ((entry.drop nameSize).take 4))

/-- The entry of a service. -/
def encode (s : Service) : List UInt8 :=
  s.name ++ List.replicate (nameSize - s.name.length) 0 ++ Bytes.ofWord s.handle

/-- The name as text, if it is UTF-8. -/
def nameText? (s : Service) : Option String := Text.decode? s.name

end Service

namespace Services

/-- The first so many entries. -/
def entries : Nat → List UInt8 → List Service
  | 0, _ => []
  | count + 1, bytes =>
    .decode (bytes.take Service.entrySize) :: entries count (bytes.drop Service.entrySize)

/-- The services of a list that holds as many entries as it says. -/
def parse? (block : List UInt8) : Option (List Service) := do
  let count ← Bytes.word? block 0
  let bytes ← Bytes.slice? block 4 (Service.entrySize * count.toNat)
  some (entries count.toNat bytes)

/-- The services of a list that is known to hold as many entries as it says. -/
def ofTrusted (block : List UInt8) : List Service :=
  entries (Bytes.ofLittle (block.take 4)) (block.drop 4)

/-- The handle of the first service of this name. -/
def find? (services : List Service) (name : String) : Option UInt32 :=
  (services.find? (·.name == Text.encode name)).map (·.handle)

/-- The list that holds these services. -/
def block (services : List Service) : List UInt8 :=
  Bytes.little 4 services.length ++ services.flatMap (·.encode)

end Services

end BootImage.Boot
