import ProxyForge.Text.Printable
/-!
# Quoted text

A text between double quotes on one line: quotes and backslashes are escaped, the usual controls
have their letters, and anything that does not print is written by its code point. An apostrophe
stands for itself.
-/

namespace ProxyForge

namespace Text

/-- A code point in lower-case hexadecimal between braces, as in `\u007f` with braces. -/
def escapeCode (c : Char) : String :=
  "\\u\x7b" ++ String.ofList (Nat.toDigits 16 c.toNat) ++ "\x7d"

/-- A character as it stands between the quotes. -/
def escapeChar (c : Char) : String :=
  if c = '"' then "\\\""
  else if c = '\\' then "\\\\"
  else if c = '\n' then "\\n"
  else if c = '\r' then "\\r"
  else if c = '\t' then "\\t"
  else if c = '\x00' then "\\0"
  else if isPrintable c then c.toString
  else escapeCode c

/-- The text between double quotes, escaped. -/
def quote (s : String) : String :=
  "\"" ++ String.join (s.toList.map escapeChar) ++ "\""

end Text

end ProxyForge
