import ProxyForge.Name
/-!
# File paths

A path is text with slashes. `Path.join` is how a path grows: an absolute piece replaces what
stands before it, and a slash is written only where none stands. `Path.steps` are the names to
follow, from the place where the path starts.
-/

namespace ProxyForge

namespace Path

/-- Starts at the root? -/
def isAbsolute (path : String) : Bool :=
  path.toList.head? = some '/'

/-- Ends in a slash? -/
def endsInSlash (path : String) : Bool :=
  path.toList.getLast? = some '/'

/-- A path with one more piece. -/
def join (path piece : String) : String :=
  if isAbsolute piece then piece
  else if path = "" || endsInSlash path then path ++ piece
  else path ++ "/" ++ piece

/-- The names between slashes. Where slashes meet there is none. -/
def steps (path : String) : List String :=
  ((Name.splitAt '/' path.toList).filter fun piece => !piece.isEmpty).map String.ofList

end Path

end ProxyForge
