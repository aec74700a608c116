import ProxyForge.ClassFile.Class
import ProxyForge.Proxy.Outline
import ProxyForge.Provider.Error
/-!
# Introspection

A type is taken for a generated one if it is marked by the annotation and implements the
dispatcher, both of the runtime library. An object of such a type holds its interceptor in a field.
-/

namespace ProxyForge

namespace Provider

/-- What a running machine tells of a type. -/
structure LoadedType where
  /-- Internal name. -/
  name : String
  /-- The internal names of the interfaces that it lists. -/
  interfaces : List String
  /-- The descriptors of the annotations on it. -/
  annotations : List String
  deriving DecidableEq, Repr

namespace LoadedType

/-- What a class file tells. What cannot be read there counts as absent. -/
def ofClassFile (c : ClassFile) : LoadedType where
  name := (c.thisName.toOption).getD ""
  interfaces := (c.interfaceNames.toOption).getD []
  annotations := (c.annotationTypes.toOption).getD []

/-- Generated, for a runtime library? -/
def isGenerated (bindings : Proxy.Bindings) (t : LoadedType) : Bool :=
  t.annotations.contains bindings.marker && t.interfaces.contains bindings.dispatcher

end LoadedType

/-- An object with the fields that its type declares. -/
structure Instance (ρ : Type) where
  type : LoadedType
  /-- The reference in a field. -/
  field : String → Option ρ

namespace Instance

variable {ρ : Type}

/-- Of a generated type? -/
def isGenerated (bindings : Proxy.Bindings) (i : Instance ρ) : Bool :=
  i.type.isGenerated bindings

/-- The interceptor that the object was constructed with. -/
def interceptor (bindings : Proxy.Bindings) (i : Instance ρ) : Except RequestError ρ :=
  let refusal := RequestError.notGenerated (Name.toBinary i.type.name)
  if i.isGenerated bindings then
    match i.field Proxy.Outline.interceptorName with
    | some r => .ok r
    | none => .error refusal
  else .error refusal

end Instance

end Provider

end ProxyForge
