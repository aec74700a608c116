import ProxyForge.Signature
/-!
# Surfaces

What a generated class has to satisfy: an ordered list of contracts, each an interface to
implement or a class to extend.
-/

namespace ProxyForge

/-- What a contract asks for. -/
inductive ContractKind
  /-- The generated class implements it. -/
  | interface
  /-- The generated class extends it. -/
  | baseClass
  deriving DecidableEq, Repr, Hashable, Inhabited

/-- One type of a surface. -/
structure Contract where
  /-- Binary name. -/
  name : String
  kind : ContractKind
  visibility : Visibility
  isFinal : Bool
  isAbstract : Bool
  /-- The methods that it offers, in order of declaration. -/
  methods : List Method
  /-- Parameter lists of the constructors of a class. -/
  constructors : List (List JvmType)
  deriving DecidableEq, Repr, Hashable, Inhabited

namespace Contract

/-- A public interface without methods. -/
def ofInterface (name : String) : Contract where
  name := name
  kind := .interface
  visibility := .publicAccess
  isFinal := false
  isAbstract := true
  methods := []
  constructors := []

/-- A public class with one constructor, which has no parameters. -/
def ofClass (name : String) : Contract where
  name := name
  kind := .baseClass
  visibility := .publicAccess
  isFinal := false
  isAbstract := false
  methods := []
  constructors := [[]]

/-- One more method, behind the others. -/
def addMethod (c : Contract) (m : Method) : Contract :=
  { c with methods := c.methods ++ [m] }

/-- An interface? -/
def isInterface (c : Contract) : Bool :=
  c.kind = .interface

/-- Usable from everywhere? -/
def isPublic (c : Contract) : Bool :=
  c.visibility = .publicAccess

/-- Its internal name. -/
def internalName (c : Contract) : String :=
  Name.toInternal c.name

/-- Its package. -/
def package (c : Contract) : String :=
  Name.package c.name

/-- The constructor with exactly these parameters. -/
def findConstructor (c : Contract) (params : List JvmType) : Option (List JvmType) :=
  c.constructors.find? (· = params)

end Contract

/-- The contracts for one generated class, in order. -/
structure Surface where
  contracts : List Contract
  deriving DecidableEq, Repr, Hashable, Inhabited

namespace Surface

/-- The contracts to implement. -/
def interfaces (s : Surface) : List Contract :=
  s.contracts.filter Contract.isInterface

/-- The contracts to extend. -/
def bases (s : Surface) : List Contract :=
  s.contracts.filter fun c => !c.isInterface

/-- The first contract to extend. -/
def base (s : Surface) : Option Contract :=
  s.bases.head?

/-- The names of the contracts, in order. -/
def names (s : Surface) : List String :=
  s.contracts.map Contract.name

end Surface

end ProxyForge
