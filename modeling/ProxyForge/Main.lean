import ProxyForge.CommandLine.Execution
import ProxyForge.CommandLine.Parsing
/-!
# The program

Arguments come in, text goes to standard output, and what went wrong to standard error. A command
that fails ends with status one, a command line that is not understood with status two.
-/

namespace ProxyForge

namespace CommandLine

/-- The lines of the help text. -/
def helpLines : List String :=
  ["Usage: proxyforge [-v]... <COMMAND>", "", "Commands:",
    "  plan <SURFACE> [--json] [--color <WHEN>]",
    "  generate <SURFACE> [-n <NAME>] [-o <FILE>] [--ctor-arg <TYPE>]...",
    "  dump <CLASS> [--color <WHEN>]",
    "  help [COMMAND]"]

/-- The help text. -/
def helpText : String :=
  String.join (helpLines.map fun line => line ++ "\n")

/-- What is said of a command line that is not carried out. -/
def UsageError.message : UsageError → String
  | helpRequested => ""
  | nothingGiven => "no command is given"
  | missingCommand => "a command is missing"
  | unknownCommand => "there is no such command"
  | unknownArgument => "there is no such argument"
  | missingArgument => "an argument is missing"
  | badValue => "a value is missing or not one of those that are possible"
  | repeated => "an argument is given twice"
  | unwantedValue => "a value is given to an argument that takes none"

/-- The fault behind an error of the system. -/
def faultOf : IO.Error → FileFault
  | .noFileOrDirectory _ _ _ => .missing
  | .inappropriateType _ 21 _ => .isDirectory
  | .inappropriateType _ 20 _ => .notDirectory
  | e => .other (toString e)

/-- The outcome of an action on the disk. -/
def attempt {α : Type} (action : IO α) : IO (Except FileFault α) := do
  try
    return .ok (← action)
  catch e => return .error (faultOf e)

/-- Files on the disk. -/
def diskStore : FileStore IO where
  read path := attempt do return (← IO.FS.readBinFile path).toList
  write path bytes := attempt (IO.FS.writeBinFile path (ByteArray.mk bytes.toArray))
  readInput := attempt do return (← (← IO.getStdin).readBinToEnd).toList

/-- Carry out a command line; the result is the status. -/
def runProgram (arguments : List String) : IO UInt32 := do
  match Invocation.ofArguments arguments with
  | .error .helpRequested =>
    IO.print helpText
    return 0
  | .error e =>
    IO.eprint ("error: " ++ e.message ++ "\n\n" ++ helpText)
    return 2
  | .ok invocation =>
    let toTerminal ← (← IO.getStdout).isTty
    match ← invocation.command.run diskStore toTerminal with
    | .ok text =>
      IO.print text
      return 0
    | .error e =>
      IO.eprintln ("error: " ++ e.message)
      return 1

end CommandLine

end ProxyForge

/-- Carry out the command line. -/
def main (arguments : List String) : IO UInt32 :=
  ProxyForge.CommandLine.runProgram arguments
