import ProxyForge.Code.ClassDraft
import ProxyForge.Proxy.Bindings
import ProxyForge.Proxy.Plan
/-!
# Outlines of generated classes

What the parts of a generated class have to know of the whole: its names, its plan, the runtime
library, and the constructor of the base that is called. The fields are named here.
-/

namespace ProxyForge

namespace Proxy

open Code (FieldRef)

/-- A class to be generated. -/
structure Outline where
  /-- Its internal name. -/
  thisName : String
  /-- The internal name of its direct superclass. -/
  superName : String
  plan : Plan
  bindings : Bindings
  /-- The parameters of the superclass's constructor. -/
  baseParams : List JvmType

namespace Outline

/-- The class of bound call targets. -/
def methodHandle : String := "java/lang/invoke/MethodHandle"

/-- The static field with a member's descriptor. -/
def descriptorField (o : Outline) (m : Planned) : FieldRef :=
  ⟨o.thisName, m.descriptorField, Bindings.classDescriptor o.bindings.memberDescriptor⟩

/-- The name of the field with the interceptor. -/
def interceptorName : String := "interceptor"

/-- The field with the interceptor. -/
def interceptorField (o : Outline) : FieldRef :=
  ⟨o.thisName, interceptorName, Bindings.classDescriptor o.bindings.interceptor⟩

/-- The field with a member's call target, if it comes from an interface. -/
def targetField (o : Outline) (m : Planned) : Option FieldRef :=
  m.targetField.map fun name => ⟨o.thisName, name, Bindings.classDescriptor methodHandle⟩

/-- The internal names of a member's declared exceptions. -/
def thrownClasses (m : Planned) : List String :=
  m.exceptions.map Name.toInternal

end Outline

end Proxy

end ProxyForge
