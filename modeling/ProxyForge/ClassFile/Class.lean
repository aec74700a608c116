import ProxyForge.ClassFile.Access
import ProxyForge.ClassFile.Frame
import ProxyForge.ClassFile.Instruction
import ProxyForge.ClassFile.Pool
/-!
# Class files

A `ClassFile` is read to its last byte. Attributes stay as bytes with the index of their name;
those of interest are read on demand: code, stack maps, declared exceptions, source file and the
types of annotations.
-/

namespace ProxyForge

/-- An attribute as it stands in the file. -/
structure Attribute where
  nameIndex : UInt16
  body : Bytes
  deriving DecidableEq, Repr

namespace Attribute

/-- An attribute: the index of its name, its length and its body. -/
def decode : Decoder Attribute := do
  let nameIndex ← Decoder.u16
  let n ← Decoder.u32
  return ⟨nameIndex, ← Decoder.take n.toNat⟩

/-- The bytes of the attribute. -/
def encode (a : Attribute) : Bytes :=
  Bytes.be16 a.nameIndex ++ Bytes.be32 (Bytes.length32 a.body) ++ a.body

/-- The bytes of attributes behind their number. -/
def encodeAll (attributes : List Attribute) : Bytes :=
  Bytes.be16 (Bytes.length16 attributes) ++ attributes.flatMap encode

/-- The names of the attributes that are read. -/
def codeName : String := "Code"

def stackMapName : String := "StackMapTable"

def exceptionsName : String := "Exceptions"

def sourceFileName : String := "SourceFile"

def annotationsName : String := "RuntimeVisibleAnnotations"

/-- The first attribute with a name. An index of a name that is of no use is an error if it comes
first. -/
def find (pool : Pool) (name : String) : List Attribute → Except FormatError (Option Attribute)
  | [] => .ok none
  | a :: rest => do
    if (← pool.utf8 a.nameIndex) = name then return some a else find pool name rest

end Attribute

/-- A field or a method as it stands in the file. -/
structure Member where
  access : UInt16
  nameIndex : UInt16
  descriptorIndex : UInt16
  attributes : List Attribute
  deriving DecidableEq, Repr

namespace Member

/-- A field or a method. -/
def decode : Decoder Member := do
  let access ← Decoder.u16
  let nameIndex ← Decoder.u16
  let descriptorIndex ← Decoder.u16
  return ⟨access, nameIndex, descriptorIndex, ← Decoder.counted Attribute.decode⟩

/-- The bytes of the field or method. -/
def encode (m : Member) : Bytes :=
  Bytes.be16 m.access ++ Bytes.be16 m.nameIndex ++ Bytes.be16 m.descriptorIndex ++
    Attribute.encodeAll m.attributes

/-- The bytes of fields or methods behind their number. -/
def encodeAll (members : List Member) : Bytes :=
  Bytes.be16 (Bytes.length16 members) ++ members.flatMap encode

/-- Without an instance? -/
def isStatic (m : Member) : Bool :=
  Access.has m.access Access.isStatic

end Member

/-- Who handles an exception that is raised between two offsets. -/
structure HandlerEntry where
  start : UInt16
  stop : UInt16
  handler : UInt16
  /-- The class that is caught, zero for any. -/
  catchType : UInt16
  deriving DecidableEq, Repr

namespace HandlerEntry

/-- An entry. -/
def decode : Decoder HandlerEntry := do
  let start ← Decoder.u16
  let stop ← Decoder.u16
  let handler ← Decoder.u16
  return ⟨start, stop, handler, ← Decoder.u16⟩

/-- The bytes of the entry. -/
def encode (h : HandlerEntry) : Bytes :=
  Bytes.be16 h.start ++ Bytes.be16 h.stop ++ Bytes.be16 h.handler ++ Bytes.be16 h.catchType

end HandlerEntry

/-- The body of a code attribute. -/
structure CodeBody where
  maxStack : UInt16
  maxLocals : UInt16
  code : Bytes
  handlers : List HandlerEntry
  attributes : List Attribute
  deriving DecidableEq, Repr

namespace CodeBody

/-- The body of a code attribute. -/
def decode : Decoder CodeBody := do
  let maxStack ← Decoder.u16
  let maxLocals ← Decoder.u16
  let n ← Decoder.u32
  let code ← Decoder.take n.toNat
  let handlers ← Decoder.counted HandlerEntry.decode
  return ⟨maxStack, maxLocals, code, handlers, ← Decoder.counted Attribute.decode⟩

/-- The body that fills bytes. -/
def ofBytes (body : Bytes) : Except FormatError CodeBody :=
  (decode.whole fun _ => .malformedAttribute Attribute.codeName).run body

/-- The bytes of the body. -/
def encode (c : CodeBody) : Bytes :=
  Bytes.be16 c.maxStack ++ Bytes.be16 c.maxLocals ++ Bytes.be32 (Bytes.length32 c.code) ++
    c.code ++ Bytes.be16 (Bytes.length16 c.handlers) ++
    c.handlers.flatMap HandlerEntry.encode ++ Attribute.encodeAll c.attributes

/-- The instructions. -/
def instructions (c : CodeBody) : Except FormatError (List Instruction) :=
  Instruction.decodeAll c.code

/-- The stack map frames; none if the attribute is absent. -/
def frames (c : CodeBody) (pool : Pool) : Except FormatError (List Frame) := do
  match ← Attribute.find pool Attribute.stackMapName c.attributes with
  | some a => Frame.decodeTable a.body
  | none => return []

end CodeBody

/-! ## Annotations -/

namespace Annotation

/-- What is wrong with an annotation. -/
def malformed : FormatError :=
  .malformedAttribute Attribute.annotationsName

/-- The tags of values that are one index. -/
def indexTags : List UInt8 :=
  ['B', 'C', 'D', 'F', 'I', 'J', 'S', 'Z', 's', 'c'].map fun c => UInt8.ofNat c.toNat

/-- Do something `n` times. -/
def repeated (d : Decoder Unit) : Nat → Decoder Unit
  | 0 => return
  | n + 1 => do
    d
    repeated d n

/-- Pass over a value, which may nest. Each level takes a byte, so the bytes left bound the depth
(`fuel`). -/
def skipValue : (fuel : Nat) → Decoder Unit
  | 0 => Decoder.fail malformed
  | fuel + 1 => do
    let tag ← Decoder.u8
    if indexTags.contains tag then Decoder.skip 2
    else if tag = UInt8.ofNat 'e'.toNat then Decoder.skip 4
    else if tag = UInt8.ofNat '@'.toNat then do
      let _ ← Decoder.u16
      let n ← Decoder.u16
      repeated (do
        let _ ← Decoder.u16
        skipValue fuel) n.toNat
    else if tag = UInt8.ofNat '['.toNat then do
      let n ← Decoder.u16
      repeated (skipValue fuel) n.toNat
    else Decoder.fail malformed

/-- Pass over pairs of names and values, behind their number. -/
def skipPairs (fuel : Nat) : Decoder Unit := do
  let n ← Decoder.u16
  repeated (do
    let _ ← Decoder.u16
    skipValue fuel) n.toNat

/-- The type of an annotation; its values are passed over. -/
def decodeType (pool : Pool) (fuel : Nat) : Decoder String := do
  let name ← Decoder.lift (pool.utf8 (← Decoder.u16))
  skipPairs fuel
  return name

/-- The types of the annotations in an attribute. -/
def typesOf (pool : Pool) (body : Bytes) : Except FormatError (List String) :=
  ((Decoder.counted (decodeType pool (body.length + 1))).whole fun _ => malformed).run body

end Annotation

/-- A class file. -/
structure ClassFile where
  minor : UInt16
  major : UInt16
  pool : Pool
  access : UInt16
  thisClass : UInt16
  /-- Zero only for the root of all classes. -/
  superClass : UInt16
  interfaces : List UInt16
  fields : List Member
  methods : List Member
  attributes : List Attribute
  deriving DecidableEq, Repr

namespace ClassFile

/-- The first four bytes. -/
def magic : UInt32 := 0xcafebabe

/-- A class file, whatever follows it. -/
def decode : Decoder ClassFile := do
  let found ← Decoder.u32
  if found ≠ magic then Decoder.fail (.wrongMagic found)
  else
    let minor ← Decoder.u16
    let major ← Decoder.u16
    let pool ← Pool.decode
    let access ← Decoder.u16
    let thisClass ← Decoder.u16
    let superClass ← Decoder.u16
    let interfaces ← Decoder.counted Decoder.u16
    let fields ← Decoder.counted Member.decode
    let methods ← Decoder.counted Member.decode
    let attributes ← Decoder.counted Attribute.decode
    return ⟨minor, major, pool, access, thisClass, superClass, interfaces, fields, methods,
      attributes⟩

/-- Its internal name. -/
def thisName (c : ClassFile) : Except FormatError String :=
  c.pool.className c.thisClass

/-- The class file that fills bytes. Its own name must be there. -/
def ofBytes (bytes : Bytes) : Except FormatError ClassFile := do
  let c ← (decode.whole .trailing).run bytes
  let _ ← c.thisName
  return c

/-- The bytes of the class file. -/
def encode (c : ClassFile) : Bytes :=
  Bytes.be32 magic ++ Bytes.be16 c.minor ++ Bytes.be16 c.major ++ c.pool.encode ++
    Bytes.be16 c.access ++ Bytes.be16 c.thisClass ++ Bytes.be16 c.superClass ++
    Bytes.be16 (Bytes.length16 c.interfaces) ++ c.interfaces.flatMap Bytes.be16 ++
    Member.encodeAll c.fields ++ Member.encodeAll c.methods ++ Attribute.encodeAll c.attributes

/-- The internal name of the class that it extends. -/
def superName (c : ClassFile) : Except FormatError (Option String) :=
  if c.superClass = 0 then .ok none else some <$> c.pool.className c.superClass

/-- The internal names of the interfaces that it implements. -/
def interfaceNames (c : ClassFile) : Except FormatError (List String) :=
  c.interfaces.mapM c.pool.className

/-- The name of a field or method. -/
def memberName (c : ClassFile) (m : Member) : Except FormatError String :=
  c.pool.utf8 m.nameIndex

/-- The descriptor of a field or method. -/
def memberDescriptor (c : ClassFile) (m : Member) : Except FormatError String :=
  c.pool.utf8 m.descriptorIndex

/-- Did a look-up give this text? -/
def isText (found : Except FormatError String) (text : String) : Bool :=
  match found with
  | .ok s => s = text
  | .error _ => false

/-- Is this the member's name? -/
def isNamed (c : ClassFile) (name : String) (m : Member) : Bool :=
  isText (c.memberName m) name

/-- The place of a field with a name. -/
def fieldIndex (c : ClassFile) (name : String) : Option Nat :=
  c.fields.findIdx? (c.isNamed name)

/-- The place of a method with a name and a descriptor. -/
def methodIndex (c : ClassFile) (name descriptor : String) : Option Nat :=
  c.methods.findIdx? fun m =>
    c.isNamed name m && isText (c.memberDescriptor m) descriptor

/-- The methods with a name. -/
def methodsNamed (c : ClassFile) (name : String) : List Member :=
  c.methods.filter (c.isNamed name)

/-- An attribute of the class itself. -/
def findAttribute (c : ClassFile) (name : String) : Except FormatError (Option Attribute) :=
  Attribute.find c.pool name c.attributes

/-- The code of a method, if it has some. -/
def code (c : ClassFile) (m : Member) : Except FormatError (Option CodeBody) := do
  match ← Attribute.find c.pool Attribute.codeName m.attributes with
  | some a => some <$> CodeBody.ofBytes a.body
  | none => return none

/-- The internal names of the exceptions that a method declares. -/
def declaredExceptions (c : ClassFile) (m : Member) : Except FormatError (List String) := do
  match ← Attribute.find c.pool Attribute.exceptionsName m.attributes with
  | some a =>
    (Decoder.counted do Decoder.lift (c.pool.className (← Decoder.u16))).run a.body
  | none => return []

/-- The name of the source file, if it is given. -/
def sourceFile (c : ClassFile) : Except FormatError (Option String) := do
  match ← c.findAttribute Attribute.sourceFileName with
  | some a => some <$> (do Decoder.lift (c.pool.utf8 (← Decoder.u16)) : Decoder String).run a.body
  | none => return none

/-- The descriptors of the class's annotations that are visible at run time. -/
def annotationTypes (c : ClassFile) : Except FormatError (List String) := do
  match ← c.findAttribute Attribute.annotationsName with
  | some a => Annotation.typesOf c.pool a.body
  | none => return []

end ClassFile

end ProxyForge
