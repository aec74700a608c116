import ProxyForge.ClassFile.Disassembly
import ProxyForge.CommandLine.Command
import ProxyForge.Files.Fault
import ProxyForge.Provider.Location
import ProxyForge.Provider.Settings
import ProxyForge.Proxy.Report
import ProxyForge.Surface.Json
/-!
# Carrying out commands

What a command reads and writes goes through a `FileStore`, so that a run is the same on a disk
and on a tree in memory. The result is the text for standard output.
-/

namespace ProxyForge

namespace CommandLine

open Proxy (Artifact Plan)
open Provider (Location RequestError Settings)
open Text (Palette)

/-- Where commands read and write. -/
structure FileStore (m : Type → Type) where
  read : String → m (Except FileFault Bytes)
  write : String → Bytes → m (Except FileFault Unit)
  /-- All of standard input. -/
  readInput : m (Except FileFault Bytes)

/-- Why a command has no result. -/
inductive CommandError
  | unreadable (path : String) (fault : FileFault)
  | unwritable (path : String) (fault : FileFault)
  | badSurface (path : String) (error : Json.ReadError)
  | badParam (text : String) (error : TypeError)
  | request (error : RequestError)
  | generation (error : Proxy.GenerationError)
  | classFile (error : FormatError)
  deriving DecidableEq, Repr

/-- What is said of text that is no surface. -/
def surfaceComplaint : Json.ReadError → String
  | .fault .ended => "the text ends too early"
  | .fault .misplaced => "the text is not JSON"
  | .mismatch m => m.message

/-- The message of the error. -/
def CommandError.message : CommandError → String
  | unreadable path fault =>
    let fault := fault.message
    s!"failed to read '{path}': {fault}"
  | unwritable path fault =>
    let fault := fault.message
    s!"failed to write '{path}': {fault}"
  | badSurface path error =>
    let error := surfaceComplaint error
    s!"invalid surface in '{path}': {error}"
  | badParam text error =>
    let error := error.message
    s!"invalid constructor argument type '{text}': {error}"
  | request error => error.message
  | generation error => error.message
  | classFile error =>
    let error := error.message
    s!"malformed class file: {error}"

/-- An outcome of a part of a command, with its error. -/
def orElse {α ε : Type} (wrap : ε → CommandError) : Except ε α → Except CommandError α
  | .ok x => .ok x
  | .error e => .error (wrap e)

/-! ## Surfaces -/

/-- The path that stands for standard input. -/
def inputPath : String := "-"

/-- The surface in the content of a file. -/
def surfaceOf (path : String) (content : Except FileFault Bytes) : Except CommandError Surface := do
  let bytes ← orElse (.unreadable path) content
  match String.fromUTF8? (ByteArray.mk bytes.toArray) with
  | none => .error (.unreadable path .notText)
  | some text => orElse (.badSurface path) (Surface.ofJsonText text)

variable {m : Type → Type} [Monad m]

/-- The surface in a file, or on standard input. -/
def surfaceAt (files : FileStore m) (path : String) : m (Except CommandError Surface) := do
  let content ← if path = inputPath then files.readInput else files.read path
  return surfaceOf path content

/-! ## The commands -/

/-- The text that shows the plan for a surface. -/
def planText (asJson : Bool) (palette : Palette) (s : Surface) : Except CommandError String := do
  let plan ← orElse .generation (Plan.ofSurface Proxy.checksumId s)
  return if asJson then plan.toJson.pretty ++ "\n" else plan.table palette

/-- The types in their source form, up to the first that is none. -/
def paramTypes (texts : List String) : Except CommandError (List JvmType) :=
  texts.mapM fun text => orElse (.badParam text) (JvmType.ofSourceName text)

/-- The name of a class for which none is given. -/
def usualName (p : Location) : String :=
  Name.qualify (p.package.getD Settings.defaultPackage) (Settings.defaultStem ++ "0")

/-- The class for a surface. -/
def artifactFor (name : Option String) (params : List String) (s : Surface) :
    Except CommandError Artifact := do
  let baseParams ← paramTypes params
  let location ← orElse .request (Location.ofRequest s baseParams)
  let name := name.getD (usualName location)
  orElse .generation <|
    Proxy.generate .standard ⟨name, s, location.access, baseParams⟩

/-- The file for a class for which none is given. -/
def usualOutput (a : Artifact) : String :=
  Name.simple a.name ++ ".class"

/-- The line that tells what was written. -/
def writtenLine (a : Artifact) (path : String) : String :=
  let members := a.members.length
  let size := a.bytes.length
  a.name ++ s!": {members} members, {size} bytes -> " ++ path ++ "\n"

/-- Write the file of a class. -/
def writeArtifact (files : FileStore m) (output : Option String) (a : Artifact) :
    m (Except CommandError String) := do
  let path := output.getD (usualOutput a)
  match ← files.write path a.bytes with
  | .error fault => return .error (.unwritable path fault)
  | .ok () => return .ok (writtenLine a path)

/-- The readable form of a class file. -/
def dumpText (palette : Palette) (bytes : Bytes) : Except CommandError String := do
  let c ← orElse .classFile (ClassFile.ofBytes bytes)
  return Text.Styled.render palette (← orElse .classFile (Disassembly.ofClass c))

/-- Carry out a command. The result is what it prints. -/
def Command.run (files : FileStore m) (toTerminal : Bool) :
    Command → m (Except CommandError String)
  | plan path asJson color => do
    let surface ← surfaceAt files path
    return do planText asJson (.ofBool (color.isOn toTerminal)) (← surface)
  | generate path name output params => do
    let surface ← surfaceAt files path
    match do artifactFor name params (← surface) with
    | .error e => return .error e
    | .ok artifact => writeArtifact files output artifact
  | dump path color => do
    let content ← files.read path
    return do
      dumpText (.ofBool (color.isOn toTerminal)) (← orElse (.unreadable path) content)

end CommandLine

end ProxyForge
