import BootImage.Text.Utf8

/-! String tables.

    A table is a run of UTF-8 strings, each ended by a zero byte or by the end of the table. A name
    is the rest of the string at an offset, which may point into the middle of one.

        offset   0    1    2    3    4    5    6
        bytes    a    b    c    \0   d    e            get? 1 = "bc", get? 3 = "", get? 4 = "de"
                                                       get? 6 = "", get? 7 is none -/

namespace BootImage.Elf

/-- The bytes of a string table. -/
structure StringTable where
  bytes : List UInt8
  deriving DecidableEq

namespace StringTable

/-- The table without strings. -/
def empty : StringTable := ⟨[]⟩

/-- Accepts bytes that are UTF-8 throughout. -/
def ofBytes? (bytes : List UInt8) : Option StringTable :=
  (Text.decode? bytes).map fun _ => ⟨bytes⟩

/-- The rest of the string that covers an offset. The offset of a terminator gives the empty text,
    and so does the end of a table whose last string has none; an offset past the table or inside a
    character gives nothing. -/
def get? (table : StringTable) (offset : Nat) : Option String :=
  match table.bytes.drop offset with
  | [] =>
    if offset = table.bytes.length && table.bytes.getLast?.any (· != 0) then some "" else none
  | rest => Text.decode? (rest.takeWhile (· != 0))

end StringTable

end BootImage.Elf
