import ProxyForge.Code.Error
import ProxyForge.JvmType.SourceName
/-!
# Errors of generation

Why no class is generated for a surface.
-/

namespace ProxyForge

namespace Proxy

/-- Why a surface is of no use. -/
inductive SurfaceDefect
  | severalBases (first second : String)
  | invalidClassName (name : String)
  | noConstructor (base : String) (params : List JvmType)
  | argumentsWithoutBase
  deriving DecidableEq, Repr

/-- Types with commas between them. -/
def listTypes (types : List JvmType) : String :=
  ", ".intercalate (types.map JvmType.sourceName)

/-- The message of the defect. -/
def SurfaceDefect.message : SurfaceDefect → String
  | severalBases first second => s!"more than one base contract ('{first}' and '{second}')"
  | invalidClassName name => s!"invalid class name '{name}'"
  | noConstructor base params =>
    let params := listTypes params
    s!"'{base}' has no constructor taking ({params})"
  | argumentsWithoutBase => "constructor arguments given without a base contract"

/-- Why no class is generated. -/
inductive GenerationError
  | invalidSurface (defect : SurfaceDefect)
  /-- Two members would have one dispatch id. -/
  | idCollision (first second : String) (id : Int32)
  | tooManyMembers (count : Nat)
  | emission (error : EmissionError)
  deriving DecidableEq, Repr

/-- The message of the error. -/
def GenerationError.message : GenerationError → String
  | invalidSurface defect =>
    let defect := defect.message
    s!"invalid capability surface: {defect}"
  | idCollision first second id =>
    s!"dispatch id collision: '{first}' and '{second}' both hash to {id}"
  | tooManyMembers count => s!"too many members: {count} (max 65535)"
  | emission error => error.message

end Proxy

end ProxyForge
