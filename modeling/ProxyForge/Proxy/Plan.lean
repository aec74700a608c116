import Std.Data.HashSet
import ProxyForge.Checksum
import ProxyForge.Proxy.Error
import ProxyForge.Surface.Basic
/-!
# Member plans

Which members a generated class forwards, in which order. First come `equals`, `hashCode` and
`toString`, then the members of the contracts in their order. Of members with one key the first is
planned. A member that the base has sealed is planned nowhere: the inherited implementation stays.
-/

namespace ProxyForge

namespace Proxy

/-- Where a member comes from, which decides how it is called behind the interceptor. -/
inductive Origin
  /-- One of the three members that every object has. -/
  | universal
  /-- The base class. -/
  | base
  /-- An interface. -/
  | interface
  deriving DecidableEq, Repr

/-- A member that may be planned. -/
structure Candidate where
  signature : Signature
  /-- The binary name of the type that declares it. -/
  declaring : String
  origin : Origin
  visibility : Visibility
  /-- The binary names of its declared exceptions. -/
  exceptions : List String
  deriving DecidableEq, Repr

/-- A planned member. -/
structure Planned extends Candidate where
  /-- By this number the dispatcher is asked for the member. -/
  id : Int32
  /-- Its place in the plan. -/
  slot : UInt16
  deriving DecidableEq, Repr

namespace Planned

/-- The key of its signature. -/
def key (m : Planned) : String :=
  m.signature.key

/-- A name with the slot behind it. -/
def numbered (m : Planned) (name : String) : String :=
  name ++ toString m.slot

/-- The static field with its descriptor. -/
def descriptorField (m : Planned) : String :=
  m.numbered "m"

/-- A name that only members of interfaces have. -/
def ifInterface (m : Planned) (name : String) : Option String :=
  match m.origin with
  | .interface => some (m.numbered name)
  | _ => none

/-- The field that keeps the bound call target. -/
def targetField (m : Planned) : Option String :=
  m.ifInterface "h"

/-- The method that binds and calls the target. -/
def targetMethod (m : Planned) : Option String :=
  m.ifInterface "invokeTarget"

end Planned

/-- The members of a class, in order, and the contract it extends. -/
structure Plan where
  members : List Planned
  base : Option Contract
  deriving DecidableEq, Repr

/-- The dispatch id of a key unless another function is asked for: its checksum. -/
def checksumId (key : String) : Int32 :=
  (Checksum.crc32 key.toUTF8.toList).toInt32

namespace Plan

/-- The members from interfaces. -/
def interfaceMembers (p : Plan) : List Planned :=
  p.members.filter fun m => m.origin = .interface

/-- The member with a key. -/
def find? (p : Plan) (key : String) : Option Planned :=
  p.members.find? fun m => m.key = key

/-! ## Candidates -/

/-- The members that every object has. -/
def universalSignatures : List Signature :=
  [⟨"equals", [.anyObject], .primitive .boolean⟩, ⟨"hashCode", [], .primitive .int⟩,
    ⟨"toString", [], .object "java.lang.String"⟩]

/-- A method listed by a type, as a candidate. -/
def candidate (origin : Origin) (listedIn : String) (m : Method) : Candidate where
  signature := m.signature
  declaring := m.declaredIn.getD listedIn
  origin := origin
  visibility := m.visibility
  exceptions := m.exceptions

/-- A universal member that the base does not redeclare. -/
def plainUniversal (s : Signature) : Candidate where
  signature := s
  declaring := "java.lang.Object"
  origin := .universal
  visibility := .publicAccess
  exceptions := []

/-- A universal member, as the base redeclares it; none if that cannot be overridden. -/
def universal (base : Option Contract) (s : Signature) : Option Candidate :=
  match base with
  | none => some (plainUniversal s)
  | some base =>
    match base.methods.find? fun m => m.key = s.key with
    | none => some (plainUniversal s)
    | some m =>
      if m.isFinal then none
      else if m.isStatic then some (plainUniversal s)
      else some { candidate .universal base.name m with signature := s }

/-- May a class that implements the interface define the method? -/
def isImplementable (m : Method) : Bool :=
  !m.isStatic && m.visibility = .publicAccess

/-- May a class that extends the base override the method? -/
def isOverridable (m : Method) : Bool :=
  !m.isFinal && !m.isStatic &&
    (m.visibility = .publicAccess || m.visibility = .protectedAccess)

/-- Is the method inherited, but not to be overridden? -/
def isSealed (m : Method) : Bool :=
  m.isFinal && !m.isStatic && m.visibility ≠ .privateAccess

/-- The candidates of a contract. -/
def ofContract (c : Contract) : List Candidate :=
  if c.isInterface then
    (c.methods.filter isImplementable).map (candidate .interface c.name)
  else (c.methods.filter isOverridable).map (candidate .base c.name)

/-- All candidates, in order. -/
def candidates (base : Option Contract) (s : Surface) : List Candidate :=
  universalSignatures.filterMap (universal base) ++ s.contracts.flatMap ofContract

/-- The keys that the base has sealed. -/
def sealedKeys (base : Option Contract) : List String :=
  match base with
  | none => []
  | some base => (base.methods.filter isSealed).map Method.key

/-! ## Choice -/

/-- How far the choice has come. -/
structure Choice where
  /-- Keys that are not planned any more. -/
  seen : Std.HashSet String
  /-- The key behind each id. -/
  ids : Std.HashMap Int32 String
  members : Array Planned

/-- The greatest number of members. -/
def limit : Nat := 65536

/-- Plan a candidate, unless its key is not to be planned any more. -/
def consider (hash : String → Int32) (s : Choice) (c : Candidate) : Except GenerationError Choice :=
  let key := c.signature.key
  if s.seen.contains key then .ok s
  else
    let id := hash key
    match s.ids[id]? with
    | some first => .error (.idCollision first key id)
    | none =>
      let slot := s.members.size
      if limit ≤ slot then .error (.tooManyMembers (slot + 1))
      else .ok {
        seen := s.seen.insert key
        ids := s.ids.insert id key
        members := s.members.push ⟨c, id, UInt16.ofNat slot⟩ }

/-- The base of a surface; there may be one. -/
def baseOf (s : Surface) : Except GenerationError (Option Contract) :=
  match s.bases with
  | [] => .ok none
  | [base] => .ok (some base)
  | first :: second :: _ => .error (.invalidSurface (.severalBases first.name second.name))

/-- The plan for a surface, with the ids that a function gives to keys. -/
def ofSurface (hash : String → Int32) (s : Surface) : Except GenerationError Plan := do
  let base ← baseOf s
  let start : Choice := ⟨.ofList (sealedKeys base), ∅, #[]⟩
  let choice ← (candidates base s).foldlM (consider hash) start
  return ⟨choice.members.toList, base⟩

end Plan

end Proxy

end ProxyForge
