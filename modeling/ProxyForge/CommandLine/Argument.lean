/-!
# Arguments

What may be given on the command line, by which names, and what giving it does. A `Level` is the
program itself or one of its commands, with the arguments that may stand there.
-/

namespace ProxyForge

namespace CommandLine

/-- Something that may be given. -/
inductive Argument
  /-- The file with a surface. -/
  | surface
  /-- The class file to show. -/
  | classFile
  /-- The binary name of the class. -/
  | name
  /-- The file to write. -/
  | output
  /-- The type of one more parameter of the base's constructor. -/
  | param
  /-- Show the plan as JSON. -/
  | json
  | color
  | verbose
  | help
  deriving DecidableEq, Repr

/-- What giving an argument does. -/
inductive Action
  /-- Takes a value, once. -/
  | value
  /-- Takes a value each time. -/
  | values
  /-- Takes none, once. -/
  | switch
  /-- Takes none and is counted. -/
  | count
  /-- Ends the run with the help text. -/
  | showHelp
  deriving DecidableEq, Repr

namespace Action

/-- Is a value taken? -/
def takesValue : Action → Bool
  | value => true
  | values => true
  | _ => false

/-- May the argument be given again? -/
def mayRepeat : Action → Bool
  | values => true
  | count => true
  | _ => false

end Action

namespace Argument

/-- The name behind two hyphens. -/
def long : Argument → Option String
  | name => some "name"
  | output => some "output"
  | param => some "ctor-arg"
  | json => some "json"
  | color => some "color"
  | help => some "help"
  | surface | classFile | verbose => none

/-- The letter behind one hyphen. -/
def short : Argument → Option Char
  | name => some 'n'
  | output => some 'o'
  | verbose => some 'v'
  | help => some 'h'
  | surface | classFile | param | json | color => none

/-- What giving it does. -/
def action : Argument → Action
  | surface | classFile | name | output | color => .value
  | param => .values
  | json => .switch
  | verbose => .count
  | help => .showHelp

/-- The words for a choice of colour. -/
def colorWords : List String := ["auto", "always", "never"]

/-- Is the value one that the argument can have? Paths are not empty. -/
def accepts (a : Argument) (value : String) : Bool :=
  match a with
  | surface | classFile | output => value ≠ ""
  | color => colorWords.contains value
  | _ => true

end Argument

/-- The program or a command. -/
structure Level where
  /-- What the first plain word is, if one may stand there; it has to. -/
  positional : Option Argument
  options : List Argument
  /-- The names of the commands that may follow. -/
  commands : List String
  deriving DecidableEq, Repr

namespace Level

/-- The command that shows help texts. -/
def helpCommand : String := "help"

/-- The program. -/
def program : Level := ⟨none, [.verbose, .help], ["plan", "generate", "dump", helpCommand]⟩

/-- The command that shows a plan. -/
def plan : Level := ⟨some .surface, [.json, .color, .verbose, .help], []⟩

/-- The command that writes a class file. -/
def generate : Level := ⟨some .surface, [.name, .output, .param, .verbose, .help], []⟩

/-- The command that shows a class file. -/
def dump : Level := ⟨some .classFile, [.color, .verbose, .help], []⟩

/-- The option with a long name. -/
def findLong (l : Level) (name : String) : Option Argument :=
  l.options.find? fun a => a.long = some name

/-- The option with a letter. -/
def findShort (l : Level) (letter : Char) : Option Argument :=
  l.options.find? fun a => a.short = some letter

end Level

end CommandLine

end ProxyForge
