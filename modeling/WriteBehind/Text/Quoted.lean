import WriteBehind.Text.Hex
import WriteBehind.Text.Printable

/-!
# Quoted text

A text between double quotes, as messages show it.  The quote and the backslash
are written with a backslash in front, tabs, line ends and NUL by a letter, and
every other unprintable character by its code point in hexadecimal.
-/

namespace WriteBehind.Text

/-- One character inside quotes. -/
def quoteChar (c : Char) : String :=
  if c == '"' then "\\\""
  else if c == '\\' then "\\\\"
  else if c == '\n' then "\\n"
  else if c == '\r' then "\\r"
  else if c == '\t' then "\\t"
  else if c.toNat = 0 then "\\0"
  else if isPrintable c then c.toString
  else "\\u\x7b" ++ hex c.toNat ++ "\x7d"

/-- A text between double quotes. -/
def quote (s : String) : String :=
  "\"" ++ String.join (s.toList.map quoteChar) ++ "\""

end WriteBehind.Text
