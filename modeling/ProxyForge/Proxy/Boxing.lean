import ProxyForge.Code.Body
/-!
# Boxing

Instructions that carry values between the typed world of methods and arrays of objects: a
primitive becomes an object of its wrapper class and is taken out of it again, a reference is cast
when it comes back.
-/

namespace ProxyForge

namespace Proxy

namespace Boxing

open Code (Op Kind FieldRef MethodRef CallKind)

variable {L : Type}

/-- The class of classes. -/
def classClass : String := "java/lang/Class"

/-- The root of all classes. -/
def objectClass : String := "java/lang/Object"

/-- A call of a method that no interface owns. -/
def call (kind : CallKind) (owner name descriptor : String) : Op L :=
  .invoke kind ⟨owner, name, descriptor, false⟩

/-- A number below two to the thirty-first. -/
def count (n : Nat) : Op L :=
  .int (Int32.ofNat n)

/-- Push the class of a type. -/
def pushClass (t : JvmType) : Op L :=
  match t.internalName with
  | some name => .classOf name
  | none =>
    .getStatic ⟨t.wrapper.getD "java/lang/Void", "TYPE", "Ljava/lang/Class;"⟩

/-- Push an array with the classes of types. -/
def pushClasses (types : List JvmType) : List (Op L) :=
  count types.length :: .newArray classClass ::
    types.zipIdx.flatMap fun (t, i) => [.dup, count i, pushClass t, .arrayStore]

/-- Box the value on top of the stack if it is a primitive. -/
def boxValue (t : JvmType) : List (Op L) :=
  match t.wrapper with
  | some wrapper =>
    [call .static wrapper "valueOf" ("(" ++ t.descriptor ++ ")L" ++ wrapper ++ ";")]
  | none => []

/-- Box a result; that of `void` is `null`. -/
def boxResult (t : JvmType) : List (Op L) :=
  if t = .void then [.null] else boxValue t

/-- Turn the object on top of the stack into a value of a type. -/
def unboxValue (t : JvmType) : List (Op L) :=
  match t.wrapper, t.unboxMethod with
  | some wrapper, some accessor =>
    [.cast wrapper, call .virtual wrapper accessor ("()" ++ t.descriptor)]
  | _, _ =>
    match t.internalName with
    | some name => if name = objectClass then [] else [.cast name]
    | none => []

/-- Each parameter with its place and its first slot, from a slot on. -/
def placed (first : UInt16) (index : Nat) : List JvmType → List (JvmType × Nat × UInt16)
  | [] => []
  | t :: rest => (t, index, first) :: placed (first + t.slots) (index + 1) rest

/-- Load a parameter from its slot. -/
def loadParam (t : JvmType) (slot : UInt16) : List (Op L) :=
  match Kind.ofType t with
  | some kind => [.load kind slot]
  | none => []

/-- Store a boxed parameter into the array on top of the stack. -/
def packArg (t : JvmType) (index : Nat) (slot : UInt16) : List (Op L) :=
  match Kind.ofType t with
  | some kind => [.dup, count index, .load kind slot] ++ boxValue t ++ [.arrayStore]
  | none => []

/-- Push an array with the parameters that lie in the locals from a slot on. -/
def packParams (params : List JvmType) (first : UInt16) : List (Op L) :=
  count params.length :: .newArray objectClass ::
    (placed first 0 params).flatMap fun (t, index, slot) => packArg t index slot

/-- Push the elements of the array in a local, each as a value of its parameter's type. -/
def unpackParams (params : List JvmType) (array : UInt16) : List (Op L) :=
  params.zipIdx.flatMap fun (t, i) =>
    [.load .reference array, count i, .arrayLoad] ++ unboxValue t

/-- Push the parameters that lie in the locals from a slot on. -/
def pushParams (params : List JvmType) (first : UInt16) : List (Op L) :=
  (placed first 0 params).flatMap fun (t, _, slot) => loadParam t slot

end Boxing

end Proxy

end ProxyForge
