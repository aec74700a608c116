import ProxyForge.Files.Path
import ProxyForge.Proxy.Artifact
import ProxyForge.Text.Blank
/-!
# Settings of a provider

Names for generated classes, and whether their bytes are kept as files to look at. The latter is
read from two environment variables.
-/

namespace ProxyForge

namespace Provider

/-- Whether, and in which directory, generated classes are kept as files. -/
structure DumpSettings where
  isEnabled : Bool
  directory : String
  deriving DecidableEq, Repr

namespace DumpSettings

/-- The variable that switches dumping on. -/
def switchVariable : String := "INTERPOSE_DUMP"

/-- The variable that names the directory. -/
def directoryVariable : String := "INTERPOSE_DUMP_DIR"

/-- The directory where no other is named. -/
def defaultDirectory : String := "interpose"

/-- No dumping. -/
def off : DumpSettings := ⟨false, defaultDirectory⟩

/-- Dumping into a directory. -/
def toDirectory (directory : String) : DumpSettings := ⟨true, directory⟩

/-- An ASCII capital in its small form, any other character as it is. -/
def lowerChar (c : Char) : Char :=
  if 'A' ≤ c ∧ c ≤ 'Z' then Char.ofNat (c.toNat + 32) else c

/-- Does the value of a switch mean yes? -/
def isYes (value : String) : Bool :=
  let word := String.ofList ((Text.trim value.toList).map lowerChar)
  word = "1" || word = "true" || word = "yes"

/-- As variables say. A directory without a visible name counts as not given. -/
def ofVariables (lookup : String → Option String) : DumpSettings where
  isEnabled := (lookup switchVariable).any isYes
  directory := ((lookup directoryVariable).filter fun d => !Text.isAllBlank d).getD
    defaultDirectory

/-- The file for a class: a directory for each segment of its package, then the simple name. -/
def fileFor (d : DumpSettings) (className : String) : String :=
  let package := Name.package className
  let segments :=
    if package = "" then [] else (Name.splitAt '.' package.toList).map String.ofList
  Path.join (segments.foldl Path.join d.directory) (Name.simple className ++ ".class")

end DumpSettings

/-- How a provider is set up. -/
structure Settings where
  /-- The package of classes that no contract holds elsewhere. -/
  package : String
  /-- What simple names start with; a number follows. -/
  stem : String
  dump : DumpSettings
  generator : Proxy.Generator

namespace Settings

/-- The package unless another is asked for. -/
def defaultPackage : String := "dev.interpose.proxy"

/-- What simple names start with unless something else is asked for. -/
def defaultStem : String := "$Proxy"

/-- The usual settings. -/
def standard : Settings where
  package := defaultPackage
  stem := defaultStem
  dump := .off
  generator := .standard

/-- The usual settings, with dumping as variables say. -/
def ofVariables (lookup : String → Option String) : Settings :=
  { standard with dump := .ofVariables lookup }

end Settings

end Provider

end ProxyForge
