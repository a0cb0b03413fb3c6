import Transducer.Text.Hex
import Transducer.Text.Invisible
/-!
# Quoted text

How a text is shown inside a message: between double quotes, the common control characters by
their escapes, quotes and backslashes escaped, other characters without a shape by number.
-/
namespace Transducer.Text

/-- A character as it stands inside quotes. -/
def quoteChar (c : Char) : String :=
  if c = '\x00' then "\\0"
  else if c = '\t' then "\\t"
  else if c = '\r' then "\\r"
  else if c = '\n' then "\\n"
  else if c = '"' then "\\\""
  else if c = '\\' then "\\\\"
  else if isInvisible c then "\\u\x7b" ++ hex c.toNat ++ "\x7d"
  else String.singleton c

/-- The text between double quotes. -/
def quoted (text : String) : String := "\"" ++ String.join (text.toList.map quoteChar) ++ "\""

end Transducer.Text
