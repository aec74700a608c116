import ProxyForge.Proxy.Dispatcher
import ProxyForge.Proxy.Forwarder
import ProxyForge.Proxy.Initializer
/-!
# Artifacts

A class is generated in three steps: the surface is planned, the members of the class are drafted
and laid out, and the class file is written. Nothing is returned unless all of them succeed.
-/

namespace ProxyForge

namespace Proxy

open Code (ClassDraft FieldRef MethodDraft)

/-- What to generate. -/
structure Blueprint where
  /-- The binary name of the class. -/
  name : String
  surface : Surface
  access : UInt16
  /-- The parameters of the base's constructor that is called. -/
  baseParams : List JvmType
  deriving DecidableEq, Repr

/-- A public final class that calls the base's constructor without parameters. -/
def Blueprint.ofSurface (name : String) (surface : Surface) : Blueprint where
  name := name
  surface := surface
  access := Access.isPublic ||| Access.isFinal
  baseParams := []

/-- How generation is set up. -/
structure Generator where
  bindings : Bindings
  /-- The dispatch id of a key. -/
  hash : String → Int32

/-- The usual runtime library, and checksums as ids. -/
def Generator.standard : Generator where
  bindings := .standard
  hash := checksumId

/-- A generated class. -/
structure Artifact where
  /-- Its binary name. -/
  name : String
  /-- The access flags that were asked for. -/
  access : UInt16
  /-- The binary name of the base, if there is one. -/
  base : Option String
  /-- The binary names of its interfaces, the dispatcher last. -/
  interfaces : List String
  members : List Planned
  bytes : Bytes
  deriving DecidableEq, Repr

/-- Its internal name. -/
def Artifact.internalName (a : Artifact) : String :=
  Name.toInternal a.name

namespace Outline

/-- A field with its flags. -/
def withAccess (access : UInt16) (field : FieldRef) : UInt16 × FieldRef :=
  (access, field)

/-- The fields of the class, in order. -/
def fields (o : Outline) : List (UInt16 × FieldRef) :=
  o.plan.members.map (fun m =>
    withAccess (Access.isPrivate ||| Access.isStatic ||| Access.isFinal) (o.descriptorField m)) ++
  [withAccess (Access.isPrivate ||| Access.isFinal) o.interceptorField] ++
  (o.plan.members.filterMap o.targetField).map
    (withAccess (Access.isPrivate ||| Access.isVolatile))

/-- The methods of the class, in order. -/
def methods (o : Outline) : List MethodDraft :=
  [Initializer.classInitializer o, Initializer.constructor o] ++
  o.plan.members.map (Forwarder.method o) ++ [Dispatcher.dispatch o] ++
  o.plan.members.filterMap (Dispatcher.helper o)

/-- The draft with a field. -/
def addField (d : ClassDraft) (entry : UInt16 × FieldRef) : Interner ClassDraft :=
  d.addField entry.1 entry.2.name entry.2.descriptor

/-- What the attribute for the source file names. -/
def sourceFile : String := "<generated>"

/-- The class file, for access flags and the internal names of interfaces. -/
def classFile (o : Outline) (access : UInt16) (interfaces : List String) :
    Interner ClassFile := do
  let d ← ClassDraft.new access o.thisName o.superName interfaces
  let d ← o.fields.foldlM addField d
  let d ← o.methods.foldlM ClassDraft.addMethod d
  let d ← d.setSourceFile sourceFile
  let d ← d.addAnnotation o.bindings.marker
  d.finish

end Outline

namespace Blueprint

/-- Stop because of the surface. -/
def refuse {α : Type} (defect : SurfaceDefect) : Except GenerationError α :=
  .error (.invalidSurface defect)

/-- The internal name of the superclass. The base must have the constructor that is called. -/
def superName (blueprint : Blueprint) (base : Option Contract) : Except GenerationError String :=
  match base with
  | some base =>
    match base.findConstructor blueprint.baseParams with
    | none => refuse (.noConstructor base.name blueprint.baseParams)
    | some _ => .ok base.internalName
  | none =>
    if blueprint.baseParams.isEmpty then .ok Code.objectClass else refuse .argumentsWithoutBase

/-- The internal names of the interfaces, the dispatcher last. -/
def interfaces (blueprint : Blueprint) (bindings : Bindings) : List String :=
  blueprint.surface.interfaces.map Contract.internalName ++ [bindings.dispatcher]

/-- The outline of the class. -/
def outline (g : Generator) (blueprint : Blueprint) : Except GenerationError Outline :=
  if !Name.isBinary blueprint.name then refuse (.invalidClassName blueprint.name)
  else do
    let plan ← Plan.ofSurface g.hash blueprint.surface
    let superName ← blueprint.superName plan.base
    return ⟨Name.toInternal blueprint.name, superName, plan, g.bindings, blueprint.baseParams⟩

/-- What a computation on an empty pool gives. -/
def emit {α : Type} (m : Interner α) : Except GenerationError α :=
  match m PoolBuilder.empty with
  | .ok x _ => .ok x
  | .error e _ => .error (.emission e)

end Blueprint

/-- Generate a class. -/
def generate (g : Generator) (blueprint : Blueprint) : Except GenerationError Artifact := do
  let o ← blueprint.outline g
  let interfaces := blueprint.interfaces g.bindings
  let file ← Blueprint.emit (o.classFile (blueprint.access ||| Access.isSuper) interfaces)
  return {
    name := blueprint.name
    access := blueprint.access
    base := o.plan.base.map Contract.name
    interfaces := interfaces.map Name.toBinary
    members := o.plan.members
    bytes := file.encode }

/-- The bytes of a class, generated in the standard way. -/
def generateBytes (name : String) (access : UInt16) (surface : Surface) :
    Except GenerationError Bytes := do
  let a ← generate .standard { Blueprint.ofSurface name surface with access := access }
  return a.bytes

end Proxy

end ProxyForge
