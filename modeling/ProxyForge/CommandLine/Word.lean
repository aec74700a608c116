/-!
# Words of a command line

A word that starts with a hyphen gives options: `--name`, `--name=value`, or letters behind one
hyphen. Two hyphens alone end the options, and one alone is a plain word.
-/

namespace ProxyForge

namespace CommandLine

/-- A word by its hyphens. -/
inductive Word
  /-- The end of the options. -/
  | escape
  | long (name : String) (value : Option String)
  | short (letters : List Char)
  | plain
  deriving DecidableEq, Repr

namespace Word

/-- A long option: the name up to the first equals sign, then the value. -/
def ofLong (text : List Char) : Word :=
  let name := text.takeWhile (· ≠ '=')
  match text.dropWhile (· ≠ '=') with
  | [] => .long (String.ofList name) none
  | _ :: value => .long (String.ofList name) (some (String.ofList value))

/-- The word of a text. -/
def ofText (text : String) : Word :=
  match text.toList with
  | ['-', '-'] => .escape
  | '-' :: '-' :: rest => ofLong rest
  | ['-'] => .plain
  | '-' :: letters => .short letters
  | _ => .plain

end Word

end CommandLine

end ProxyForge
