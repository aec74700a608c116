import ProxyForge.JvmType.Basic
/-!
# Symbolic instructions

Instructions before they are bytes: constants stand for themselves, and a jump names a place of
some type `L`, a label in a body as it is written and a position once labels are resolved.
-/

namespace ProxyForge

namespace Code

/-- The categories of values that instructions tell apart. -/
inductive Kind
  /-- `int` and what is narrower. -/
  | int
  | long
  | float
  | double
  | reference
  deriving DecidableEq, Repr, Inhabited

namespace Kind

/-- The category of a type; `void` has none. -/
def ofType : JvmType → Option Kind
  | .void => none
  | .primitive .long => some long
  | .primitive .float => some float
  | .primitive .double => some double
  | .primitive _ => some int
  | .object _ => some reference
  | .array _ => some reference

/-- Slots taken by a value. -/
def slots : Kind → Nat
  | long => 2
  | double => 2
  | _ => 1

/-- The place of the kind among the opcodes for each kind. -/
def index : Kind → UInt8
  | int => 0
  | long => 1
  | float => 2
  | double => 3
  | reference => 4

end Kind

/-- A field, by the internal name of its owner. -/
structure FieldRef where
  owner : String
  name : String
  descriptor : String
  deriving DecidableEq, Repr

/-- A method, by the internal name of its owner. -/
structure MethodRef where
  owner : String
  name : String
  descriptor : String
  /-- Is the owner an interface? -/
  inInterface : Bool
  deriving DecidableEq, Repr

/-- How a method is chosen. -/
inductive CallKind
  | virtual
  | special
  | static
  | interface
  deriving DecidableEq, Repr

/-- When a jump is taken. -/
inductive JumpKind
  | always
  | ifNull
  | ifNonNull
  deriving DecidableEq, Repr

/-- One instruction. Classes are given by internal name. -/
inductive Op (L : Type)
  | null
  | int (value : Int32)
  | string (value : String)
  | classOf (name : String)
  | load (kind : Kind) (index : UInt16)
  | store (kind : Kind) (index : UInt16)
  | arrayLoad
  | arrayStore
  | pop
  | dup
  /-- A return, of nothing or of a value. -/
  | ret (kind : Option Kind)
  | getStatic (field : FieldRef)
  | putStatic (field : FieldRef)
  | getField (field : FieldRef)
  | putField (field : FieldRef)
  | invoke (kind : CallKind) (method : MethodRef)
  | new (name : String)
  | newArray (element : String)
  | cast (name : String)
  | throw
  | monitorEnter
  | monitorExit
  | jump (kind : JumpKind) (target : L)
  | lookupSwitch (fallback : L) (cases : List (Int32 × L))
  deriving DecidableEq, Repr, Inhabited

namespace Op

/-- Does control never pass on to the instruction behind? -/
def isUnconditional {L : Type} : Op L → Bool
  | ret _ => true
  | throw => true
  | jump .always _ => true
  | lookupSwitch _ _ => true
  | _ => false

/-- The places that the instruction may jump to. -/
def targets {L : Type} : Op L → List L
  | jump _ target => [target]
  | lookupSwitch fallback cases => fallback :: cases.map (·.2)
  | _ => []

/-- Throw a new object of a class with a message. -/
def throwNew {L : Type} (name message : String) : List (Op L) :=
  [.new name, .dup, .string message,
    .invoke .special ⟨name, "<init>", "(Ljava/lang/String;)V", false⟩, .throw]

/-- The instruction with its places looked up, in their order. -/
def resolve {L M ε : Type} (place : L → Except ε M) : Op L → Except ε (Op M)
  | null => .ok null
  | int value => .ok (int value)
  | string value => .ok (string value)
  | classOf name => .ok (classOf name)
  | load kind index => .ok (load kind index)
  | store kind index => .ok (store kind index)
  | arrayLoad => .ok arrayLoad
  | arrayStore => .ok arrayStore
  | pop => .ok pop
  | dup => .ok dup
  | ret kind => .ok (ret kind)
  | getStatic field => .ok (getStatic field)
  | putStatic field => .ok (putStatic field)
  | getField field => .ok (getField field)
  | putField field => .ok (putField field)
  | invoke kind method => .ok (invoke kind method)
  | new name => .ok (new name)
  | newArray element => .ok (newArray element)
  | cast name => .ok (cast name)
  | throw => .ok throw
  | monitorEnter => .ok monitorEnter
  | monitorExit => .ok monitorExit
  | jump kind target => do return jump kind (← place target)
  | lookupSwitch fallback cases => do
    let fallback ← place fallback
    let cases ← cases.mapM fun (key, target) => do return (key, ← place target)
    return lookupSwitch fallback cases

end Op

end Code

end ProxyForge
