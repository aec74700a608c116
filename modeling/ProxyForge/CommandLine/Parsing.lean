import ProxyForge.CommandLine.Argument
import ProxyForge.CommandLine.Command
import ProxyForge.CommandLine.Word
/-!
# Parsing the command line

Words are read from left to right. An option or plain word with its value is taken up only when
the next one comes, or at the end: until then it is *pending*, so an argument that is not known is
found before a bad value in front of it. `Invocation.ofArguments` is the reading of a whole line.
-/

namespace ProxyForge

namespace CommandLine

/-- Why a command line is not carried out. -/
inductive UsageError
  /-- The help text is asked for. -/
  | helpRequested
  | nothingGiven
  | missingCommand
  | unknownCommand
  | unknownArgument
  | missingArgument
  | badValue
  /-- Given twice, where once is all. -/
  | repeated
  /-- A value for what takes none. -/
  | unwantedValue
  deriving DecidableEq, Repr

/-- A reading, up to a word. -/
structure Reading where
  /-- What was given, with its value. -/
  given : List (Argument × Option String)
  /-- Not yet taken up, and its value once it is there. -/
  pending : Option (Argument × Option String)
  /-- The options are over. -/
  isTrailing : Bool
  /-- The plain word of the level has been met. -/
  hasPositional : Bool
  deriving DecidableEq, Repr

namespace Reading

/-- Before the first word. -/
def start : Reading := ⟨[], none, false, false⟩

/-- Given at least once? -/
def has (r : Reading) (a : Argument) : Bool :=
  r.given.any fun g => g.1 = a

/-- The value of an argument that is given once. -/
def value? (r : Reading) (a : Argument) : Option String :=
  (r.given.lookup a).join

/-- The values of an argument that may be given again. -/
def values (r : Reading) (a : Argument) : List String :=
  r.given.filterMap fun g => if g.1 = a then g.2 else none

/-- How often an argument is given, as far as eight bits count. -/
def count (r : Reading) (a : Argument) : UInt8 :=
  UInt8.ofNat (min (r.given.countP fun g => g.1 = a) 255)

/-- Is the next word a value, if it gives no option? -/
def awaitsValue (r : Reading) : Bool :=
  match r.pending with
  | some (_, none) => true
  | _ => false

/-- Take up an argument, with nothing pending. -/
def take (r : Reading) (a : Argument) (value : Option String) : Except UsageError Reading :=
  if a.action = .showHelp then .error .helpRequested
  else if a.action.takesValue && value.isNone then .error .badValue
  else if !a.action.mayRepeat && r.has a then .error .repeated
  else if value.all a.accepts then .ok { r with given := r.given ++ [(a, value)] }
  else .error .badValue

/-- Take up what is pending. -/
def settle (r : Reading) : Except UsageError Reading :=
  match r.pending with
  | none => .ok r
  | some (a, value) => { r with pending := none }.take a value

/-- Take up an argument after what is pending. -/
def react (r : Reading) (a : Argument) (value : Option String) : Except UsageError Reading := do
  (← r.settle).take a value

/-- Wait for the value of an argument. -/
def await (r : Reading) (a : Argument) : Except UsageError Reading := do
  return { ← r.settle with pending := some (a, none) }

end Reading

namespace Level

/-- A long option. -/
def readLong (l : Level) (r : Reading) (name : String) (value : Option String) :
    Except UsageError Reading :=
  match l.findLong name with
  | none => .error .unknownArgument
  | some a =>
    if a.action.takesValue then
      match value with
      | some v => r.react a (some v)
      | none => r.await a
    else match value with
      | some _ => .error .unwantedValue
      | none => r.react a none

/-- The value that is written behind a letter; an equals sign in front of it is dropped. -/
def attached : List Char → String
  | '=' :: value => String.ofList value
  | value => String.ofList value

/-- Letters behind one hyphen. What stands behind a letter that takes a value is its value. -/
def readShort (l : Level) (r : Reading) : List Char → Except UsageError Reading
  | [] => .ok r
  | letter :: rest =>
    match l.findShort letter with
    | none => .error .unknownArgument
    | some a =>
      if a.action.takesValue then
        if rest.isEmpty then r.await a else r.react a (some (attached rest))
      else do l.readShort (← r.react a none) rest

/-- A plain word that is no value. -/
def readPlain (l : Level) (r : Reading) (text : String) : Except UsageError Reading :=
  match l.positional, r.hasPositional with
  | some a, false => do
    return { ← r.settle with pending := some (a, some text), hasPositional := true }
  | _, _ =>
    if l.commands.isEmpty || (r.isTrailing && l.commands.contains text) then
      .error .unknownArgument
    else .error .unknownCommand

/-- The value that an option waits for, or a plain word. -/
def readText (l : Level) (r : Reading) (text : String) : Except UsageError Reading :=
  match r.pending, r.isTrailing with
  | some (a, none), false => .ok { r with pending := some (a, some text) }
  | _, _ => l.readPlain r text

/-- One word. -/
def readWord (l : Level) (r : Reading) (text : String) : Except UsageError Reading :=
  if r.isTrailing then l.readText r text
  else match Word.ofText text with
    | .escape => .ok { r with isTrailing := true }
    | .long name value => l.readLong r name value
    | .short letters => l.readShort r letters
    | .plain => l.readText r text

/-- Is the word the name of a command that follows? -/
def startsCommand (l : Level) (r : Reading) (text : String) : Bool :=
  !r.isTrailing && !r.awaitsValue && l.commands.contains text

/-- Words up to the end, or up to a command: its name, and what is behind it. -/
def read (l : Level) (r : Reading) :
    List String → Except UsageError (Reading × Option (String × List String))
  | [] => do return (← r.settle, none)
  | text :: rest =>
    if l.startsCommand r text then .ok (r, some (text, rest))
    else do l.read (← l.readWord r text) rest

/-- The arguments of a command. -/
def readArguments (l : Level) (words : List String) : Except UsageError Reading := do
  let (r, _) ← l.read .start words
  match l.positional with
  | some a => if r.has a then return r else .error .missingArgument
  | none => return r

end Level

namespace Invocation

/-- The choice that a word stands for. -/
def colorOf (word : Option String) : Coloring :=
  match word with
  | some "always" => .always
  | some "never" => .never
  | _ => .auto

/-- The path that was given. -/
def pathOf (r : Reading) (a : Argument) : String :=
  (r.value? a).getD ""

/-- What the words behind `help` ask for: the help text of the program or of a command. -/
def helpFor : List String → UsageError
  | [] => .helpRequested
  | [name] =>
    if Level.program.commands.contains name then .helpRequested else .unknownCommand
  | _ => .unknownCommand

/-- A command by its name, from the words behind the name. -/
def commandOf (name : String) (words : List String) : Except UsageError (Command × Reading) :=
  match name with
  | "plan" => do
    let r ← Level.plan.readArguments words
    return (.plan (pathOf r .surface) (r.has .json) (colorOf (r.value? .color)), r)
  | "generate" => do
    let r ← Level.generate.readArguments words
    return (.generate (pathOf r .surface) (r.value? .name) (r.value? .output) (r.values .param), r)
  | "dump" => do
    let r ← Level.dump.readArguments words
    return (.dump (pathOf r .classFile) (colorOf (r.value? .color)), r)
  | _ => .error (helpFor words)

/-- The invocation that the words after the program's name ask for. Behind a command the wish for
more talk counts instead of the one in front. -/
def ofArguments (words : List String) : Except UsageError Invocation := do
  match ← Level.program.read .start words with
  | (r, none) => .error (if r.given.isEmpty then .nothingGiven else .missingCommand)
  | (r, some (name, rest)) =>
    let (command, inner) ← commandOf name rest
    return ⟨command, if inner.has .verbose then inner.count .verbose else r.count .verbose⟩

end Invocation

end CommandLine

end ProxyForge
