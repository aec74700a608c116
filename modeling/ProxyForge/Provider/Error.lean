import ProxyForge.Proxy.Error
/-!
# Errors of a provider

Why a request for a class is refused, and why a class that was generated is not defined. A request
is checked before anything is generated.
-/

namespace ProxyForge

namespace Provider

/-- Why a loader does not define a class. -/
inductive DefinitionError
  | duplicate (name : String)
  | format (detail : String)
  | linkage (detail : String)
  deriving DecidableEq, Repr

/-- The message of the error. -/
def DefinitionError.message : DefinitionError → String
  | duplicate name => s!"class '{name}' is already defined"
  | format detail => s!"class format error: {detail}"
  | linkage detail => s!"linkage error: {detail}"

/-- Why there is no class for a request, or no interceptor in an object. -/
inductive RequestError
  | emptySurface
  | repeatedContract (name : String)
  | severalBases (first second : String)
  /-- The base is final or private. -/
  | closedBase (name : String)
  | abstractBase (name : String)
  | noConstructor (base : String) (params : List JvmType)
  | argumentsWithoutBase
  | tooManyContracts (count : Nat)
  /-- Contracts that are not public, in two packages. -/
  | mixedPackages (first second : String)
  | notGenerated (name : String)
  | generation (error : Proxy.GenerationError)
  | load (name : String) (error : DefinitionError)
  deriving DecidableEq, Repr

/-- The message of the error. -/
def RequestError.message : RequestError → String
  | emptySurface => "capability surface is empty"
  | repeatedContract name => s!"contract '{name}' is listed more than once"
  | severalBases first second => s!"more than one base contract: '{first}' and '{second}'"
  | closedBase name => s!"base contract '{name}' is final or private and cannot be extended"
  | abstractBase name => s!"base contract '{name}' is abstract"
  | noConstructor base params =>
    let params := Proxy.listTypes params
    s!"'{base}' has no constructor taking ({params})"
  | argumentsWithoutBase =>
    "constructor arguments given but the surface has no base contract"
  | tooManyContracts count => s!"too many contracts: {count} (max 65535)"
  | mixedPackages first second =>
    s!"non-public contracts from different packages: '{first}' and '{second}'"
  | notGenerated name => s!"not a generated artifact: '{name}'"
  | generation error => error.message
  | load name error =>
    let error := error.message
    s!"failed to define '{name}': {error}"

end Provider

end ProxyForge
