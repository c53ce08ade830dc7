import BootImage.Number
import BootImage.Text.Printable

/-! Quoted text.

    A message shows a value between double quotes. Quotes and backslashes in it are written behind a
    backslash, five controls by a letter, and every other character that is not printable by its
    code point in braces. -/

namespace BootImage.Text

/-- The written form of one character. -/
def quoteChar (c : Char) : List Char :=
  match c with
  | '"' => ['\\', '"']
  | '\\' => ['\\', '\\']
  | '\n' => ['\\', 'n']
  | '\r' => ['\\', 'r']
  | '\t' => ['\\', 't']
  | '\x00' => ['\\', '0']
  | c =>
    if isPrintable c then [c]
    else ['\\', 'u', '\x7b'] ++ Number.hexDigits c.toNat ++ ['\x7d']

/-- The text between double quotes. -/
def quote (text : String) : String :=
  String.ofList ('"' :: text.toList.flatMap quoteChar ++ ['"'])

end BootImage.Text
