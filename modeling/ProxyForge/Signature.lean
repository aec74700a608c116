import ProxyForge.JvmType.Descriptor
import ProxyForge.JvmType.SourceName
/-!
# Methods and their signatures

A `Signature` is what makes two declarations the same member: name, parameter types, result type.
Its `key` is a text that tells signatures apart. A `Method` is a declaration with its modifiers.
-/

namespace ProxyForge

/-- Who may use a type or a member. -/
inductive Visibility
  | publicAccess
  | protectedAccess
  /-- The members of the same package. -/
  | packageAccess
  | privateAccess
  deriving DecidableEq, Repr, Hashable, Inhabited

/-- The keyword, `package` where the language has none. -/
def Visibility.keyword : Visibility → String
  | publicAccess => "public"
  | protectedAccess => "protected"
  | packageAccess => "package"
  | privateAccess => "private"

/-- All of them, widest first. -/
def Visibility.all : List Visibility :=
  [publicAccess, protectedAccess, packageAccess, privateAccess]

/-- Name, parameters and result of a method. -/
structure Signature where
  name : String
  params : List JvmType
  result : JvmType
  deriving DecidableEq, Repr, Hashable, Inhabited

namespace Signature

/-- The method descriptor, as in `(ID)I`. -/
def descriptor (s : Signature) : String :=
  JvmType.methodDescriptor s.params s.result

/-- Name and descriptor: the identity of the member as one text. -/
def key (s : Signature) : String :=
  s.name ++ s.descriptor

/-- Local variable slots of the parameters, counted in sixteen bits. -/
def paramSlots (s : Signature) : UInt16 :=
  JvmType.totalSlots s.params

/-- The form for a reader, as in `int add(int, double)`. -/
def display (s : Signature) : String :=
  s.result.sourceName ++ " " ++ s.name ++ "(" ++
    ", ".intercalate (s.params.map JvmType.sourceName) ++ ")"

end Signature

/-- A declared method. -/
structure Method where
  signature : Signature
  visibility : Visibility
  isFinal : Bool
  isStatic : Bool
  /-- Binary names of the exceptions in the `throws` clause. -/
  exceptions : List String
  /-- The declaring type, if it is not the one that lists the method. -/
  declaredIn : Option String
  deriving DecidableEq, Repr, Hashable, Inhabited

namespace Method

/-- A public method with nothing else said of it. -/
def ofSignature (s : Signature) : Method where
  signature := s
  visibility := .publicAccess
  isFinal := false
  isStatic := false
  exceptions := []
  declaredIn := none

/-- Its name. -/
def name (m : Method) : String :=
  m.signature.name

/-- The key of its signature. -/
def key (m : Method) : String :=
  m.signature.key

end Method

end ProxyForge
