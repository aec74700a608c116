import Std.Data.HashSet
import ProxyForge.ClassFile.Access
import ProxyForge.Provider.Error
import ProxyForge.Surface.Basic
/-!
# Locations

A request is checked before anything is generated, and the check says where the class goes. A
contract that is not public can be used from its own package only. It holds the class there, so
all such contracts have to be in one package; without any of them the class is public.
-/

namespace ProxyForge

namespace Provider

/-- Where a class goes, and its access flags. -/
structure Location where
  /-- The package that a contract asks for. -/
  package : Option String
  access : UInt16
  deriving DecidableEq, Repr

namespace Location

/-- The greatest number of contracts. -/
def contractLimit : Nat := 65535

/-- The first text that stands in a list for the second time. -/
def firstRepeated (seen : Std.HashSet String) : List String → Option String
  | [] => none
  | s :: rest => if seen.contains s then some s else firstRepeated (seen.insert s) rest

/-- Contracts are listed, not too many, and none of them twice. -/
def verifyContracts (s : Surface) : Except RequestError Unit :=
  if s.contracts.isEmpty then .error .emptySurface
  else if contractLimit < s.contracts.length then .error (.tooManyContracts s.contracts.length)
  else match firstRepeated ∅ s.names with
    | some name => .error (.repeatedContract name)
    | none => .ok ()

/-- The base can be extended and has the constructor that is called. -/
def verifyBase (base : Contract) (params : List JvmType) : Except RequestError Unit :=
  if base.isFinal || base.visibility = .privateAccess then .error (.closedBase base.name)
  else if base.isAbstract then .error (.abstractBase base.name)
  else match base.findConstructor params with
    | none => .error (.noConstructor base.name params)
    | some _ => .ok ()

/-- There is at most one base, which fits the parameters. -/
def verifyBases (s : Surface) (params : List JvmType) : Except RequestError Unit :=
  match s.bases with
  | [] => if params.isEmpty then .ok () else .error .argumentsWithoutBase
  | [base] => verifyBase base params
  | first :: second :: _ => .error (.severalBases first.name second.name)

/-- The contracts that are not public. -/
def confined (s : Surface) : List Contract :=
  s.contracts.filter fun c => !c.isPublic

/-- The place that the contracts which are not public agree on. -/
def agreed : List Contract → Except RequestError Location
  | [] => .ok ⟨none, Access.isPublic ||| Access.isFinal⟩
  | first :: rest =>
    match rest.find? fun c => c.package ≠ first.package with
    | some second => .error (.mixedPackages first.name second.name)
    | none => .ok ⟨some first.package, Access.isFinal⟩

/-- The place of the class for a surface whose base is constructed with these parameters. -/
def ofRequest (s : Surface) (params : List JvmType) : Except RequestError Location := do
  verifyContracts s
  verifyBases s params
  agreed (confined s)

end Location

end Provider

end ProxyForge
