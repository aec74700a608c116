import ProxyForge.ClassFile.Class
import ProxyForge.Code.Inference
/-!
# Drafts of classes

A `ClassDraft` is a class to which fields, methods and attributes are added. Adding needs
constants, so it is a computation on the constant pool; a step that fails leaves the draft as it
was, and the constants that it added stay in the pool. What is added goes to the front of a list,
and `finish` turns the lists around.
-/

namespace ProxyForge

namespace Code

/-- A class in the making. -/
structure ClassDraft where
  access : UInt16
  /-- Its internal name. -/
  thisName : String
  thisClass : UInt16
  superClass : UInt16
  interfaces : List UInt16
  /-- The fields, the last first. -/
  fields : List Member
  /-- The methods, the last first. -/
  methods : List Member
  /-- The indexes of the annotations' types, the last first. -/
  annotations : List UInt16
  sourceFile : Option UInt16
  deriving DecidableEq, Repr

/-- A method to be added: without a body if it is abstract or native. -/
structure MethodDraft where
  access : UInt16
  name : String
  descriptor : String
  body : Option Body
  /-- The internal names of the exceptions that it declares. -/
  exceptions : List String
  deriving DecidableEq, Repr

namespace MethodDraft

/-- What the inference of frames has to know of the method. -/
def shape (thisClass : String) (m : MethodDraft) : MethodHeader :=
  ⟨thisClass, m.name, m.descriptor, Access.has m.access Access.isStatic⟩

end MethodDraft

namespace ClassDraft

/-- The version of the format. -/
def majorVersion : UInt16 := 52

/-- A class without members. All names are internal names. -/
def new (access : UInt16) (thisName superName : String) (interfaces : List String) :
    Interner ClassDraft := do
  let thisClass ← Interner.classRef thisName
  let superClass ← Interner.classRef superName
  let interfaces ← interfaces.mapM Interner.classRef
  return ⟨access, thisName, thisClass, superClass, interfaces, [], [], [], none⟩

/-- One more field. -/
def addField (d : ClassDraft) (access : UInt16) (name descriptor : String) :
    Interner ClassDraft := do
  let name ← Interner.utf8 name
  let descriptor ← Interner.utf8 descriptor
  return { d with fields := ⟨access, name, descriptor, []⟩ :: d.fields }

/-- An attribute with a name. -/
def attributeOf (name : String) (body : Bytes) : Interner Attribute := do
  return ⟨← Interner.utf8 name, body⟩

/-- A handler at the offsets of its positions. -/
def handlerEntry (offsets : Array Nat) (h : Handler Nat) : Interner HandlerEntry := do
  let at16 position := UInt16.ofNat (Layout.offsetAt offsets position)
  let caught ← match h.caught with
    | some name => Interner.classRef name
    | none => pure 0
  return ⟨at16 h.start, at16 h.stop, at16 h.handler, caught⟩

/-- The attribute with the frames, none if there are no frames. -/
def stackMap (frames : List Frame) : Interner (List Attribute) := do
  if frames.isEmpty then return []
  else
    let _ ← Interner.count16 .stackMapFrames frames.length
    return [← attributeOf Attribute.stackMapName (Frame.encodeTable frames)]

/-- The code attribute of a method. -/
def codeAttribute (shape : MethodHeader) (body : Body) : Interner Attribute := do
  let program ← Interner.lift (body.program shape.name)
  let layout ← Layout.ofProgram shape.name program
  let info ← VerifierInfo.ofProgram shape program layout.offsets
  let _ ← Interner.count16 .exceptionHandlers program.handlers.length
  let handlers ← program.handlers.mapM (handlerEntry layout.offsets)
  let attributes ← stackMap info.frames
  let code : CodeBody := ⟨info.maxStack, info.maxLocals, layout.code, handlers, attributes⟩
  attributeOf Attribute.codeName code.encode

/-- The attribute with the declared exceptions, none if there are none. -/
def exceptionsAttribute (exceptions : List String) : Interner (List Attribute) := do
  if exceptions.isEmpty then return []
  else
    let count ← Interner.count16 .declaredExceptions exceptions.length
    let classes ← exceptions.mapM Interner.classRef
    return [← attributeOf Attribute.exceptionsName
      (Bytes.be16 count ++ classes.flatMap Bytes.be16)]

/-- One more method. -/
def addMethod (d : ClassDraft) (m : MethodDraft) : Interner ClassDraft := do
  let name ← Interner.utf8 m.name
  let descriptor ← Interner.utf8 m.descriptor
  let code ← match m.body with
    | some body => do pure [← codeAttribute (m.shape d.thisName) body]
    | none => pure []
  let thrown ← exceptionsAttribute m.exceptions
  return { d with methods := ⟨m.access, name, descriptor, code ++ thrown⟩ :: d.methods }

/-- The name of the source file. -/
def setSourceFile (d : ClassDraft) (name : String) : Interner ClassDraft := do
  return { d with sourceFile := some (← Interner.utf8 name) }

/-- One more annotation without values, visible at run time. -/
def addAnnotation (d : ClassDraft) (descriptor : String) : Interner ClassDraft := do
  let index ← Interner.utf8 descriptor
  return { d with annotations := index :: d.annotations }

/-- The attribute with the source file, none if it is not set. -/
def sourceAttribute (d : ClassDraft) : Interner (List Attribute) :=
  match d.sourceFile with
  | none => return []
  | some index => do return [← attributeOf Attribute.sourceFileName (Bytes.be16 index)]

/-- The attribute with the annotations, none if there are none. -/
def annotationsAttribute (d : ClassDraft) : Interner (List Attribute) := do
  if d.annotations.isEmpty then return []
  else
    let annotations := d.annotations.reverse
    return [← attributeOf Attribute.annotationsName
      (Bytes.be16 (Bytes.length16 annotations) ++
        annotations.flatMap fun index => Bytes.be16 index ++ Bytes.be16 0)]

/-- The class file of the draft, with the pool as it is in the end. -/
def finish (d : ClassDraft) : Interner ClassFile := do
  let source ← d.sourceAttribute
  let annotations ← d.annotationsAttribute
  let _ ← Interner.count16 .interfaces d.interfaces.length
  let _ ← Interner.count16 .fields d.fields.length
  let _ ← Interner.count16 .methods d.methods.length
  let pool := (← get).pool
  return {
    minor := 0
    major := majorVersion
    pool := pool
    access := d.access
    thisClass := d.thisClass
    superClass := d.superClass
    interfaces := d.interfaces
    fields := d.fields.reverse
    methods := d.methods.reverse
    attributes := source ++ annotations }

end ClassDraft

end Code

end ProxyForge
