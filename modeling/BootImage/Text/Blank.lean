/-! Blank characters and lines.

    The characters with the Unicode property `White_Space`. Text is trimmed of them, and they
    separate the fields of a line. Lines are separated by line feeds, and each that is written is
    ended by one. -/

namespace BootImage.Text

/-- The character is one of the 25 with the property `White_Space`. -/
def isBlank (c : Char) : Bool :=
  let n := c.toNat
  (0x09 ≤ n && n ≤ 0x0d) || n == 0x20 || n == 0x85 || n == 0xa0 || n == 0x1680 ||
    (0x2000 ≤ n && n ≤ 0x200a) || n == 0x2028 || n == 0x2029 || n == 0x202f || n == 0x205f ||
    n == 0x3000

/-- The text without the blanks at its two ends. -/
def trim (text : List Char) : List Char :=
  ((text.dropWhile isBlank).reverse.dropWhile isBlank).reverse

/-- The maximal runs of characters that are not blank, in order. -/
def words (text : List Char) : List (List Char) :=
  (text.splitOnP isBlank).filter (!·.isEmpty)

/-- The lines of the text, without the line feeds between them. -/
def lines (text : List Char) : List (List Char) := text.splitOn '\n'

/-- The text of some lines, each with its line feed. -/
def ofLines (lines : List String) : String := String.join (lines.map (· ++ "\n"))

end BootImage.Text
