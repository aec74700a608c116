import ProxyForge.ClassFile.Frame
import ProxyForge.Code.Op
import ProxyForge.Code.PoolBuilder
/-!
# Types of slots

What is known of a local variable or of a stack entry while code is followed. `merge` is what is
still known where two ways meet.
-/

namespace ProxyForge

namespace Code

/-- The root of all classes. -/
def objectClass : String := "java/lang/Object"

/-- The root of all that can be thrown. -/
def throwableClass : String := "java/lang/Throwable"

/-- What is known of a slot. -/
inductive SlotType
  /-- Nothing. -/
  | top
  | int
  | float
  | long
  | double
  | null
  /-- The receiver of a constructor, before another constructor was called on it. -/
  | uninitializedThis
  /-- A fresh object, by the offset of the instruction that made it. -/
  | uninitialized (offset : Nat) (name : String)
  /-- An object, by internal name or by the descriptor of an array. -/
  | object (name : String)
  deriving DecidableEq, Repr, Inhabited

namespace SlotType

/-- What is known of a value of a type; there is none of `void`. -/
def ofType : JvmType → Option SlotType
  | .void => none
  | .primitive .long => some long
  | .primitive .float => some float
  | .primitive .double => some double
  | .primitive _ => some int
  | .object name => some (object (Name.toInternal name))
  | .array element => some (object (JvmType.array element).descriptor)

/-- Two slots? -/
def isWide : SlotType → Bool
  | long => true
  | double => true
  | _ => false

/-- Slots taken. -/
def slots (t : SlotType) : Nat :=
  if t.isWide then 2 else 1

/-- A reference? -/
def isReference : SlotType → Bool
  | null => true
  | uninitializedThis => true
  | uninitialized _ _ => true
  | object _ => true
  | _ => false

/-- Is it a value of a kind? -/
def fits (t : SlotType) : Kind → Bool
  | .int => t = int
  | .long => t = long
  | .float => t = float
  | .double => t = double
  | .reference => t.isReference

/-- What both sides agree on. Different classes agree on the root of all classes. -/
def merge (a b : SlotType) : SlotType :=
  if a = b then a
  else match a, b with
    | null, object name => object name
    | object name, null => object name
    | object _, object _ => object objectClass
    | _, _ => top

/-- The type in a frame. The class of an object becomes a constant. -/
def verification : SlotType → Interner VerificationType
  | top => return .top
  | int => return .integer
  | float => return .float
  | long => return .long
  | double => return .double
  | null => return .null
  | uninitializedThis => return .uninitializedThis
  | uninitialized offset _ => return .uninitialized (UInt16.ofNat offset)
  | object name => return .object (← Interner.classRef name)

/-- One value as slots: the second slot of a wide one is `top`. -/
def expand (t : SlotType) : List SlotType :=
  if t.isWide then [t, top] else [t]

end SlotType

end Code

end ProxyForge
