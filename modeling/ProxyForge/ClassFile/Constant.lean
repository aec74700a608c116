import ProxyForge.Bytes.Decoder
import ProxyForge.Bytes.ModifiedUtf8
/-!
# Constants

The entries of a constant pool: texts, numbers, and references to other entries by index. Floating
numbers are held as their bits, so that two entries are equal exactly if their bytes are.
-/

namespace ProxyForge

/-- An entry of a constant pool. -/
inductive Constant
  | utf8 (text : String)
  | integer (value : Int32)
  | float (bits : UInt32)
  | long (value : Int64)
  | double (bits : UInt64)
  | classRef (name : UInt16)
  | string (text : UInt16)
  | fieldRef (owner nameAndType : UInt16)
  | methodRef (owner nameAndType : UInt16)
  | interfaceMethodRef (owner nameAndType : UInt16)
  | nameAndType (name descriptor : UInt16)
  | methodHandle (kind : UInt8) (reference : UInt16)
  | methodType (descriptor : UInt16)
  | dynamic (bootstrap nameAndType : UInt16)
  | invokeDynamic (bootstrap nameAndType : UInt16)
  | module (name : UInt16)
  | package (name : UInt16)
  deriving DecidableEq, Repr, Hashable, Inhabited

namespace Constant

/-- The byte in front of an entry. -/
def tag : Constant → UInt8
  | utf8 _ => 1
  | integer _ => 3
  | float _ => 4
  | long _ => 5
  | double _ => 6
  | classRef _ => 7
  | string _ => 8
  | fieldRef _ _ => 9
  | methodRef _ _ => 10
  | interfaceMethodRef _ _ => 11
  | nameAndType _ _ => 12
  | methodHandle _ _ => 15
  | methodType _ => 16
  | dynamic _ _ => 17
  | invokeDynamic _ _ => 18
  | module _ => 19
  | package _ => 20

/-- The name of the kind of entry. -/
def kind : Constant → String
  | utf8 _ => "Utf8"
  | integer _ => "Integer"
  | float _ => "Float"
  | long _ => "Long"
  | double _ => "Double"
  | classRef _ => "Class"
  | string _ => "String"
  | fieldRef _ _ => "Fieldref"
  | methodRef _ _ => "Methodref"
  | interfaceMethodRef _ _ => "InterfaceMethodref"
  | nameAndType _ _ => "NameAndType"
  | methodHandle _ _ => "MethodHandle"
  | methodType _ => "MethodType"
  | dynamic _ _ => "Dynamic"
  | invokeDynamic _ _ => "InvokeDynamic"
  | module _ => "Module"
  | package _ => "Package"

/-- Does the entry take two indexes? -/
def isWide : Constant → Bool
  | long _ => true
  | double _ => true
  | _ => false

/-- How many indexes the entry takes. -/
def width (c : Constant) : Nat :=
  if c.isWide then 2 else 1

/-! ## Bytes -/

/-- The bytes of two numbers. -/
def pairBytes (a b : UInt16) : Bytes :=
  Bytes.be16 a ++ Bytes.be16 b

/-- The bytes behind the tag. -/
def payload : Constant → Bytes
  | utf8 text =>
    let bytes := ModifiedUtf8.encode text
    Bytes.be16 (Bytes.length16 bytes) ++ bytes
  | integer value => Bytes.be32 value.toUInt32
  | float bits => Bytes.be32 bits
  | long value => Bytes.be64 value.toUInt64
  | double bits => Bytes.be64 bits
  | classRef i => Bytes.be16 i
  | string i => Bytes.be16 i
  | fieldRef a b => pairBytes a b
  | methodRef a b => pairBytes a b
  | interfaceMethodRef a b => pairBytes a b
  | nameAndType a b => pairBytes a b
  | methodHandle kind i => kind :: Bytes.be16 i
  | methodType i => Bytes.be16 i
  | dynamic a b => pairBytes a b
  | invokeDynamic a b => pairBytes a b
  | module i => Bytes.be16 i
  | package i => Bytes.be16 i

/-- The bytes of the entry. -/
def encode (c : Constant) : Bytes :=
  c.tag :: c.payload

/-- A text behind its length. -/
def decodeText : Decoder String := do
  let n ← Decoder.u16
  let bytes ← Decoder.take n.toNat
  match ModifiedUtf8.decode bytes with
  | some text => return text
  | none => Decoder.fail .malformedText

/-- An entry of two numbers. -/
def decodePair (make : UInt16 → UInt16 → Constant) : Decoder Constant := do
  let a ← Decoder.u16
  let b ← Decoder.u16
  return make a b

/-- An entry of one number. -/
def decodeIndex (make : UInt16 → Constant) : Decoder Constant := do
  return make (← Decoder.u16)

/-- One entry. An unknown tag is reported with the index at which the entry would stand. -/
def decode (index : UInt16) : Decoder Constant := do
  let tag ← Decoder.u8
  match tag with
  | 1 => return utf8 (← decodeText)
  | 3 => return integer (← Decoder.i32)
  | 4 => return float (← Decoder.u32)
  | 5 => return long (← Decoder.u64).toInt64
  | 6 => return double (← Decoder.u64)
  | 7 => decodeIndex classRef
  | 8 => decodeIndex string
  | 9 => decodePair fieldRef
  | 10 => decodePair methodRef
  | 11 => decodePair interfaceMethodRef
  | 12 => decodePair nameAndType
  | 15 => do
    let kind ← Decoder.u8
    return methodHandle kind (← Decoder.u16)
  | 16 => decodeIndex methodType
  | 17 => decodePair dynamic
  | 18 => decodePair invokeDynamic
  | 19 => decodeIndex module
  | 20 => decodeIndex package
  | _ => Decoder.fail (.unknownTag tag index)

end Constant

end ProxyForge
