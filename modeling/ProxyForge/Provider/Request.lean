import ProxyForge.Provider.Cache
import ProxyForge.Provider.Location
import ProxyForge.Provider.Settings
/-!
# Requests

A provider answers requests for classes. A request is checked, then looked up in the provider's
cache, and only if nothing is there the class is named and created. Names end in a number that is
drawn for each creation, also one that fails; all providers draw from one counter.
-/

namespace ProxyForge

namespace Provider

open Proxy (Artifact Blueprint Generator)

/-- What is asked of a provider. With its loader, a class is cached under it. -/
structure Demand where
  surface : Surface
  /-- The parameters of the base's constructor that is called. -/
  params : List JvmType
  deriving DecidableEq, Repr

/-- What a provider asks of its surroundings. -/
structure Host (m : Type → Type) where
  /-- Have a loader define a class of this name and these bytes. -/
  define : Loader → String → Bytes → m (Except DefinitionError Unit)
  /-- Write a file if that can be done. -/
  store : String → Bytes → m Unit

/-- A way to create a class that a loader has defined. -/
abbrev Factory (m : Type → Type) : Type :=
  Loader → Blueprint → m (Except RequestError Artifact)

/-- Generate the class, write its file if that is asked for, define it. -/
def Factory.standard {m : Type → Type} [Monad m] (generator : Generator) (dump : DumpSettings)
    (host : Host m) : Factory m := fun loader blueprint => do
  match Proxy.generate generator blueprint with
  | .error e => return .error (.generation e)
  | .ok artifact =>
    if dump.isEnabled then host.store (dump.fileFor artifact.name) artifact.bytes
    match ← host.define loader artifact.name artifact.bytes with
    | .error e => return .error (.load artifact.name e)
    | .ok () => return .ok artifact

/-- A computation with the counter for names and the cache of a provider. -/
abbrev Session (m : Type → Type) : Type → Type :=
  StateT (Cache Demand Artifact) (StateT UInt64 m)

namespace Settings

/-- The name of the class with a number. -/
def nameFor (settings : Settings) (location : Location) (number : UInt64) : String :=
  Name.qualify (location.package.getD settings.package) (settings.stem ++ toString number)

end Settings

/-- Draw a number from the counter. -/
def drawNumber {m : Type → Type} [Monad m] : StateT UInt64 m UInt64 :=
  modifyGet fun next => (next, next + 1)

/-- What to generate for a request. -/
def blueprintFor (settings : Settings) (location : Location) (number : UInt64) (demand : Demand) :
    Blueprint where
  name := settings.nameFor location number
  surface := demand.surface
  access := location.access
  baseParams := demand.params

/-- The class that satisfies a surface, in a loader. -/
def request {m : Type → Type} [Monad m] (settings : Settings) (factory : Factory m)
    (live : Loader → Bool) (loader : Loader) (demand : Demand) :
    Session m (Except RequestError Artifact) := do
  match Location.ofRequest demand.surface demand.params with
  | .error e => return .error e
  | .ok location =>
    Cache.getOrCreate live loader demand do
      let number ← (drawNumber : StateT UInt64 m UInt64)
      factory loader (blueprintFor settings location number demand)

end Provider

end ProxyForge
