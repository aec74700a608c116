import ProxyForge.Bytes.Hex
import ProxyForge.ClassFile.Instruction
import ProxyForge.ClassFile.Frame
import ProxyForge.ClassFile.Pool
import ProxyForge.Json.Access
/-!
# Parts of class files as JSON

Constants, frames and instructions for other tools. A constant is an array of its kind and its
parts, as in `["Fieldref", 3, 7]`; floating numbers are the digits of their bits, and a long is a
text, as it may be too great for a reader of JSON.
-/

namespace ProxyForge

open Json

/-- A word and what belongs to it. -/
def Json.tagged (word : String) (parts : List Json) : Json :=
  .arr (.str word :: parts)

/-- A number of sixteen bits. -/
def Json.ofWord16 (n : UInt16) : Json :=
  .int n.toNat

/-! ## Constants -/

namespace Constant

/-- The parts of a constant. -/
def jsonParts : Constant → List Json
  | utf8 text => [.str text]
  | integer value => [.int value.toInt]
  | float bits => [.str (Bytes.toHex (Bytes.be32 bits))]
  | long value => [.str (toString value.toInt)]
  | double bits => [.str (Bytes.toHex (Bytes.be64 bits))]
  | classRef i | string i | methodType i | module i | package i => [ofWord16 i]
  | fieldRef a b | methodRef a b | interfaceMethodRef a b | nameAndType a b | dynamic a b
  | invokeDynamic a b => [ofWord16 a, ofWord16 b]
  | methodHandle kind reference => [.int kind.toNat, ofWord16 reference]

/-- A constant as an array. -/
def toJson (c : Constant) : Json :=
  tagged c.kind c.jsonParts

/-- The bits that a text gives. -/
def bitsOf (j : Json) : Nat :=
  Bytes.toNat (Bytes.ofHex j.text)

/-- The constant of an array. -/
def ofJson (j : Json) : Constant :=
  let first := j.item 1
  let a := first.whole16
  let b := (j.item 2).whole16
  match (j.item 0).text with
  | "Utf8" => utf8 first.text
  | "Integer" => integer first.whole32
  | "Float" => float (UInt32.ofNat (bitsOf first))
  | "Long" => long (Int64.ofInt first.whole)
  | "Double" => double (UInt64.ofNat (bitsOf first))
  | "Class" => classRef a
  | "String" => string a
  | "Fieldref" => fieldRef a b
  | "Methodref" => methodRef a b
  | "InterfaceMethodref" => interfaceMethodRef a b
  | "NameAndType" => nameAndType a b
  | "MethodHandle" => methodHandle (UInt8.ofInt first.whole) b
  | "MethodType" => methodType a
  | "Dynamic" => dynamic a b
  | "InvokeDynamic" => invokeDynamic a b
  | "Module" => module a
  | _ => package a

end Constant

/-- The entries of a pool, each with its index and its description. -/
def Pool.toJson (p : Pool) : Json :=
  .arr (p.toList.map fun (index, c) =>
    .arr [ofWord16 index, c.toJson, .str (p.describe index)])

/-! ## Frames -/

namespace VerificationType

/-- A type as a word, or as an array of a word and a number. -/
def toJson : VerificationType → Json
  | top => .str "top"
  | integer => .str "int"
  | float => .str "float"
  | double => .str "double"
  | long => .str "long"
  | null => .str "null"
  | uninitializedThis => .str "uninit_this"
  | object constant => tagged "object" [ofWord16 constant]
  | uninitialized offset => tagged "uninit" [ofWord16 offset]

/-- The type of a word. -/
def ofWord : String → VerificationType
  | "int" => integer
  | "float" => float
  | "double" => double
  | "long" => long
  | "null" => null
  | "uninit_this" => uninitializedThis
  | _ => top

/-- The type of a word or an array. -/
def ofJson (j : Json) : VerificationType :=
  match (j.item 0).text with
  | "object" => object (j.item 1).whole16
  | "uninit" => uninitialized (j.item 1).whole16
  | _ => ofWord j.text

/-- The types of an array. -/
def listOfJson (j : Json) : List VerificationType :=
  j.items.map ofJson

/-- Types as an array. -/
def listToJson (types : List VerificationType) : Json :=
  .arr (types.map toJson)

end VerificationType

namespace Frame

/-- A frame with its kind, its delta and what else it says. -/
def fields (kind : String) (delta : UInt16) (others : List (String × Json)) : Json :=
  .obj ([("kind", .str kind), ("delta", ofWord16 delta)] ++ others)

/-- A frame as an object. -/
def toJson : Frame → Json
  | same delta => fields "same" delta []
  | sameWithItem delta item => fields "same1" delta [("stack", item.toJson)]
  | chop delta count => fields "chop" delta [("k", .int count.toNat)]
  | append delta locals =>
    fields "append" delta [("locals", VerificationType.listToJson locals)]
  | full delta locals stack =>
    fields "full" delta [("locals", VerificationType.listToJson locals),
      ("stack", VerificationType.listToJson stack)]

/-- The frame of an object. -/
def ofJson (j : Json) : Frame :=
  let delta := (j.field "delta").whole16
  let locals := VerificationType.listOfJson (j.field "locals")
  let stack := j.field "stack"
  match (j.field "kind").text with
  | "same" => same delta
  | "same1" => sameWithItem delta (VerificationType.ofJson stack)
  | "chop" => chop delta (UInt8.ofInt (j.field "k").whole)
  | "append" => append delta locals
  | _ => full delta locals (VerificationType.listOfJson stack)

end Frame

/-! ## Instructions -/

/-- A place in code. -/
def Json.ofPlace (offset : UInt32) : Json :=
  .int offset.toNat

/-- Operands as an array. -/
def Operand.toJson : Operand → Json
  | none => tagged "none" []
  | .local index => tagged "local" [ofWord16 index]
  | int value => tagged "int" [.int value.toInt]
  | constant index => tagged "cp" [ofWord16 index]
  | increment index amount => tagged "iinc" [ofWord16 index, .int amount.toInt]
  | branch target => tagged "branch" [ofPlace target]
  | tableSwitch fallback low targets =>
    tagged "tableswitch" [ofPlace fallback, .int low.toInt, .arr (targets.map ofPlace)]
  | lookupSwitch fallback cases =>
    tagged "lookupswitch" [ofPlace fallback,
      .arr (cases.map fun (key, target) => .arr [.int key.toInt, ofPlace target])]
  | interfaceCall index count => tagged "invokeinterface" [ofWord16 index, .int count.toNat]
  | newArray element => tagged "newarray" [.int element.toNat]
  | newMultiArray index dimensions =>
    tagged "multianewarray" [ofWord16 index, .int dimensions.toNat]

/-- An instruction as an object. -/
def Instruction.toJson (i : Instruction) : Json :=
  .obj [("offset", .int i.offset), ("opcode", .int i.opcode.toNat), ("mnemonic", .str i.mnemonic),
    ("wide", .bool i.isWide), ("operand", i.operand.toJson),
    ("cp", (i.constant.map ofWord16).getD .null), ("targets", .arr (i.targets.map ofPlace))]

end ProxyForge
