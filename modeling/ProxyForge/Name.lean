import ProxyForge.Text.Letter
/-!
# Class names

A *binary* name has dots between its segments (`com.acme.Foo$Inner`), an *internal* name slashes.
Both are plain text here; `Name.isBinary` is the test for a well-formed binary name: segments that
are identifiers, each starting with a letter, `_` or `$`.
-/

namespace ProxyForge

namespace Name

/-- A text with one character put in place of another. -/
def replaceChar (old new : Char) (s : String) : String :=
  s.map fun c => if c = old then new else c

/-- Slashes for dots. -/
def toInternal (binary : String) : String :=
  replaceChar '.' '/' binary

/-- Dots for slashes. -/
def toBinary (internal : String) : String :=
  replaceChar '/' '.' internal

/-- What stands before the last dot, empty for the unnamed package. -/
def package (binary : String) : String :=
  String.ofList (((binary.toList.reverse.dropWhile (· ≠ '.')).drop 1).reverse)

/-- What stands after the last dot. -/
def simple (binary : String) : String :=
  String.ofList (binary.toList.reverse.takeWhile (· ≠ '.')).reverse

/-- A simple name in a package; the unnamed package adds nothing. -/
def qualify (package simple : String) : String :=
  if package = "" then simple else package ++ "." ++ simple

/-- The pieces between separators; a text without one is one piece. -/
def splitAt (separator : Char) : List Char → List (List Char)
  | [] => [[]]
  | c :: rest =>
    if c = separator then [] :: splitAt separator rest
    else match splitAt separator rest with
      | [] => [[c]]
      | piece :: pieces => (c :: piece) :: pieces

/-- May stand anywhere in an identifier. -/
def isIdentifierStart (c : Char) : Bool :=
  Text.isLetter c || c = '_' || c = '$'

/-- May stand in an identifier after its first character. -/
def isIdentifierPart (c : Char) : Bool :=
  Text.isLetter c || Text.isNumeral c || c = '_' || c = '$'

/-- A segment of a name. -/
def isIdentifier : List Char → Bool
  | [] => false
  | c :: rest => isIdentifierStart c && rest.all isIdentifierPart

/-- Identifiers with dots between them. -/
def isBinary (name : String) : Bool :=
  name ≠ "" && (splitAt '.' name.toList).all isIdentifier

end Name

end ProxyForge
