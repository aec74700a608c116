import ProxyForge.Json.Basic
/-!
# Looking into a value

For JSON that is used as it comes: what is not there, or is of another kind, reads as nothing,
as an empty text, as zero or as no. Where errors matter a value is read as one of a known shape
instead.
-/

namespace ProxyForge

namespace Json

/-- The value at a key of an object. -/
def field (j : Json) (key : String) : Json :=
  match j with
  | obj entries => (entries.lookup key).getD null
  | _ => null

/-- The items of an array. -/
def items : Json → List Json
  | arr items => items
  | _ => []

/-- An item of an array. -/
def item (j : Json) (index : Nat) : Json :=
  (j.items[index]?).getD null

/-- The entries of an object. -/
def entries : Json → List (String × Json)
  | obj entries => entries
  | _ => []

/-- The text of a string. -/
def text : Json → String
  | str s => s
  | _ => ""

/-- A whole number, also one that is written as a string. -/
def whole : Json → Int
  | int n => n
  | str s => s.toInt?.getD 0
  | _ => 0

/-- Is the value `true`? -/
def isTrue : Json → Bool
  | bool b => b
  | _ => false

/-- Is there a value, other than `null`? -/
def isGiven : Json → Bool
  | null => false
  | _ => true

/-- The text of a string, unless nothing is given. -/
def text? (j : Json) : Option String :=
  if j.isGiven then some j.text else none

/-- A number of sixteen bits. -/
def whole16 (j : Json) : UInt16 :=
  UInt16.ofInt j.whole

/-- A number of thirty-two bits, with a sign. -/
def whole32 (j : Json) : Int32 :=
  Int32.ofInt j.whole

end Json

end ProxyForge
