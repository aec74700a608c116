/-!
# Commands

What one run of the program is asked to do, and how much it tells of its progress.
-/

namespace ProxyForge

namespace CommandLine

/-- When output is coloured. -/
inductive Coloring
  /-- If it goes to a terminal. -/
  | auto
  | always
  | never
  deriving DecidableEq, Repr, Inhabited

/-- Is output coloured? -/
def Coloring.isOn (toTerminal : Bool) : Coloring → Bool
  | auto => toTerminal
  | always => true
  | never => false

/-- What to do. -/
inductive Command
  /-- Show which members a class for a surface has. -/
  | plan (surface : String) (asJson : Bool) (color : Coloring)
  /-- Write the class file for a surface. -/
  | generate (surface : String) (name output : Option String) (params : List String)
  /-- Show a class file in readable form. -/
  | dump (file : String) (color : Coloring)
  deriving DecidableEq, Repr

/-- How much is logged, from little to much. -/
inductive LogLevel
  | info
  | debug
  | trace
  deriving DecidableEq, Repr

/-- The word for a level. -/
def LogLevel.word : LogLevel → String
  | info => "info"
  | debug => "debug"
  | trace => "trace"

/-- The level that a verbosity asks for. -/
def LogLevel.ofVerbosity (verbosity : UInt8) : Option LogLevel :=
  if verbosity = 0 then none
  else if verbosity = 1 then some info
  else if verbosity = 2 then some debug
  else some trace

/-- A command, and how often more talk was asked for. -/
structure Invocation where
  command : Command
  verbosity : UInt8
  deriving DecidableEq, Repr

/-- The log level of a run. -/
def Invocation.logLevel (i : Invocation) : Option LogLevel :=
  LogLevel.ofVerbosity i.verbosity

end CommandLine

end ProxyForge
