import Hypertext.Text.Digits
import Hypertext.Text.Visible

/-!
# Quoted text

`quote` writes a text between double quotes on one line.  A double quote and a backslash get a
backslash, four controls have names of their own, and every other character that does not show
on its own is written by its number, `\u\x7b301\x7d`.
-/

namespace Hypertext.Text

/-- The quoted form of one character. -/
def quoteChar (c : Char) : String :=
  match c with
  | '\x00' => "\\0"
  | '\t' => "\\t"
  | '\n' => "\\n"
  | '\r' => "\\r"
  | '"' => "\\\""
  | '\\' => "\\\\"
  | c => if isVisible c then String.singleton c else "\\u\x7b" ++ hexadecimal c ++ "\x7d"

/-- A text between double quotes, with every character in its quoted form. -/
def quote (s : String) : String :=
  "\"" ++ String.join (s.toList.map quoteChar) ++ "\""

end Hypertext.Text
