import ProxyForge.Name
/-!
# Types of values and results

`JvmType` is a type as it appears in a method signature: a primitive, `void`, a class by its
binary name, or an array. The order of constructors is the order in which types are sorted.
-/

namespace ProxyForge

/-- The types whose values are not references. -/
inductive Primitive
  | boolean
  | byte
  | char
  | short
  | int
  | long
  | float
  | double
  deriving DecidableEq, Repr, Hashable, Ord, Inhabited

namespace Primitive

/-- All primitives, in order. -/
def all : List Primitive := [boolean, byte, char, short, int, long, float, double]

/-- The keyword. -/
def keyword : Primitive → String
  | boolean => "boolean"
  | byte => "byte"
  | char => "char"
  | short => "short"
  | int => "int"
  | long => "long"
  | float => "float"
  | double => "double"

/-- The letter in a descriptor. -/
def letter : Primitive → Char
  | boolean => 'Z'
  | byte => 'B'
  | char => 'C'
  | short => 'S'
  | int => 'I'
  | long => 'J'
  | float => 'F'
  | double => 'D'

/-- Internal name of the class whose objects wrap the values. -/
def wrapper : Primitive → String
  | boolean => "java/lang/Boolean"
  | byte => "java/lang/Byte"
  | char => "java/lang/Character"
  | short => "java/lang/Short"
  | int => "java/lang/Integer"
  | long => "java/lang/Long"
  | float => "java/lang/Float"
  | double => "java/lang/Double"

/-- The wrapper's method that gives the value back. -/
def unboxMethod : Primitive → String
  | boolean => "booleanValue"
  | byte => "byteValue"
  | char => "charValue"
  | short => "shortValue"
  | int => "intValue"
  | long => "longValue"
  | float => "floatValue"
  | double => "doubleValue"

/-- Slots taken by a value. -/
def slots : Primitive → UInt16
  | long => 2
  | double => 2
  | _ => 1

end Primitive

/-- A type in a signature. `void` is meant for results only. -/
inductive JvmType
  | primitive (p : Primitive)
  | void
  /-- A class or interface, by binary name. -/
  | object (name : String)
  | array (element : JvmType)
  deriving DecidableEq, Repr, Hashable, Ord, Inhabited

namespace JvmType

/-- The root of all classes. -/
def anyObject : JvmType := object "java.lang.Object"

/-- A primitive? `void` is none. -/
def isPrimitive : JvmType → Bool
  | primitive _ => true
  | _ => false

/-- A class or an array? -/
def isReference : JvmType → Bool
  | object _ => true
  | array _ => true
  | _ => false

/-- Local variable slots taken by a value. -/
def slots : JvmType → UInt16
  | void => 0
  | primitive p => p.slots
  | _ => 1

/-- Slots taken by values side by side, counted in sixteen bits. -/
def totalSlots (types : List JvmType) : UInt16 :=
  types.foldl (fun n t => n + t.slots) 0

/-- Wrapper class of a primitive. -/
def wrapper : JvmType → Option String
  | primitive p => some p.wrapper
  | _ => none

/-- Accessor of a primitive's wrapper. -/
def unboxMethod : JvmType → Option String
  | primitive p => some p.unboxMethod
  | _ => none

/-- Are the types in ascending order? Primitives come first, then `void`, classes by name, and
arrays by their element. -/
def le (a b : JvmType) : Bool :=
  (compare a b).isLE

end JvmType

end ProxyForge
