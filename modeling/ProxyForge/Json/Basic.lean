import ProxyForge.Decimal.Written
import ProxyForge.Text.Quoted
/-!
# JSON values and their text

`Json` is a value with its object keys in order. `Json.compact` writes it on one line, and
`Json.pretty` with two spaces for each level. `Json.describe` names a value in a message.
-/

namespace ProxyForge

/-- A JSON value. A number that is not an integer of at most sixty-four bits is held as the bits
of a double. -/
inductive Json
  | null
  | bool (value : Bool)
  | int (value : Int)
  | float (bits : UInt64)
  | str (value : String)
  | arr (items : List Json)
  | obj (entries : List (String × Json))
  deriving Inhabited

namespace Json

/-- A whole number keeps its point, and seventeen or more digits before it make an exponent, which
always has a sign. -/
def numberStyle : Decimal.Style where
  wholeDigits := some 16
  leadingZeros := some 4
  keepPoint := true
  plusSign := true
  tie := .toEven

/-- The text of a number held as the bits of a double. -/
def floatText (bits : UInt64) : String :=
  numberStyle.write (.ofBits .double bits.toNat)

/-! ## Writing -/

/-- A character inside a string. -/
def escapeChar (c : Char) : List Char :=
  if c = '"' then ['\\', '"']
  else if c = '\\' then ['\\', '\\']
  else if c = '\x08' then ['\\', 'b']
  else if c = '\x0c' then ['\\', 'f']
  else if c = '\n' then ['\\', 'n']
  else if c = '\r' then ['\\', 'r']
  else if c = '\t' then ['\\', 't']
  else if c.toNat < 0x20 then
    ['\\', 'u', '0', '0', Nat.digitChar (c.toNat / 16), Nat.digitChar (c.toNat % 16)]
  else [c]

/-- A string between its quotes. -/
def quoted (s : String) : List Char :=
  '"' :: s.toList.flatMap escapeChar ++ ['"']

/-- Pieces with commas between them. -/
def commaSeparated : List (List Char) → List Char
  | [] => []
  | [piece] => piece
  | piece :: rest => piece ++ ',' :: commaSeparated rest

mutual
/-- The characters of a value on one line. -/
def chars : Json → List Char
  | null => ['n', 'u', 'l', 'l']
  | bool true => ['t', 'r', 'u', 'e']
  | bool false => ['f', 'a', 'l', 's', 'e']
  | int n => (toString n).toList
  | float bits => (floatText bits).toList
  | str s => quoted s
  | arr items => '[' :: commaSeparated (itemChars items) ++ [']']
  | obj entries => '\x7b' :: commaSeparated (entryChars entries) ++ ['\x7d']

/-- The characters of each item. -/
def itemChars : List Json → List (List Char)
  | [] => []
  | item :: rest => chars item :: itemChars rest

/-- The characters of each entry. -/
def entryChars : List (String × Json) → List (List Char)
  | [] => []
  | (key, value) :: rest => (quoted key ++ ':' :: chars value) :: entryChars rest
end

/-- The text of a value on one line. -/
def compact (j : Json) : String :=
  String.ofList j.chars

/-- The start of a line at a level. -/
def newline (level : Nat) : String :=
  "\n" ++ String.ofList (List.replicate (2 * level) ' ')

mutual
/-- The text of a value whose closing bracket stands at a level. -/
def prettyAt (level : Nat) : Json → String
  | arr [] => "[]"
  | obj [] => "\x7b\x7d"
  | arr items => "[" ++ ",".intercalate (prettyItems (level + 1) items) ++ newline level ++ "]"
  | obj entries =>
    "\x7b" ++ ",".intercalate (prettyEntries (level + 1) entries) ++ newline level ++ "\x7d"
  | other => other.compact

/-- Each item on a line of its own. -/
def prettyItems (level : Nat) : List Json → List String
  | [] => []
  | item :: rest => (newline level ++ prettyAt level item) :: prettyItems level rest

/-- Each entry on a line of its own. -/
def prettyEntries (level : Nat) : List (String × Json) → List String
  | [] => []
  | (key, value) :: rest =>
    (newline level ++ String.ofList (quoted key) ++ ": " ++ prettyAt level value) ::
      prettyEntries level rest
end

/-- The text of a value on several lines. -/
def pretty (j : Json) : String :=
  j.prettyAt 0

/-! ## Naming a value in a message -/

/-- What a message calls a value that is not of the wanted kind. -/
def describe : Json → String
  | null => "null"
  | bool b => s!"boolean `{b}`"
  | int n => s!"integer `{n}`"
  | float bits => s!"floating point `{floatText bits}`"
  | str s => s!"string {Text.quote s}"
  | arr _ => "sequence"
  | obj _ => "map"

end Json

end ProxyForge
