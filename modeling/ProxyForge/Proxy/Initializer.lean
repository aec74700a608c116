import ProxyForge.Proxy.Boxing
import ProxyForge.Proxy.Outline
/-!
# Initializers

The class initializer looks every member up by reflection and fills its descriptor field; what
goes wrong there becomes a linkage error. The constructor refuses a missing interceptor, calls the
superclass's constructor and keeps the interceptor.
-/

namespace ProxyForge

namespace Proxy

namespace Initializer

open Code (Op Label Line Body MethodDraft)
open Boxing (call)

/-- Push the class with a binary name, loaded at run time. -/
def pushLoadedClass {L : Type} (name : String) : List (Op L) :=
  [.string name, call .static Boxing.classClass "forName" "(Ljava/lang/String;)Ljava/lang/Class;"]

/-- The method of reflection that finds a member. -/
def lookupName (m : Planned) : String :=
  if m.visibility = .publicAccess then "getMethod" else "getDeclaredMethod"

/-- Fill a member's descriptor field. -/
def fillDescriptor {L : Type} (o : Outline) (m : Planned) : List (Op L) :=
  pushLoadedClass m.declaring ++ [.string m.signature.name] ++
    Boxing.pushClasses m.signature.params ++
    [call .virtual Boxing.classClass (lookupName m)
        "(Ljava/lang/String;[Ljava/lang/Class;)Ljava/lang/reflect/Method;",
      .int m.id,
      call .static o.bindings.memberDescriptor "of" o.bindings.factoryDescriptor,
      .putStatic (o.descriptorField m)]

/-- Throw a linkage error with the message of the caught exception. -/
def throwAs {L : Type} (error : String) : List (Op L) :=
  [.store .reference 0, .new error, .dup, .load .reference 0,
    call .virtual "java/lang/Throwable" "getMessage" "()Ljava/lang/String;",
    call .special error "<init>" "(Ljava/lang/String;)V", .throw]

/-- The places of the class initializer. -/
def startLabel : Label := 0

def endLabel : Label := 1

def noMethodLabel : Label := 2

def noClassLabel : Label := 3

/-- The body of the class initializer. -/
def classBody (o : Outline) : Body :=
  if o.plan.members.isEmpty then ⟨Line.straight [.ret none], []⟩
  else
    { lines :=
        Line.block startLabel (o.plan.members.flatMap (fillDescriptor o)) ++
        Line.block endLabel [.ret none] ++
        Line.block noMethodLabel (throwAs "java/lang/NoSuchMethodError") ++
        Line.block noClassLabel (throwAs "java/lang/NoClassDefFoundError")
      handlers :=
        [⟨startLabel, endLabel, noMethodLabel, some "java/lang/NoSuchMethodException"⟩,
          ⟨startLabel, endLabel, noClassLabel, some "java/lang/ClassNotFoundException"⟩] }

/-- The class initializer. -/
def classInitializer (o : Outline) : MethodDraft where
  access := Access.isStatic
  name := "<clinit>"
  descriptor := "()V"
  body := some (classBody o)
  exceptions := []

/-- The parameters of the constructor: the interceptor, then those for the superclass. -/
def constructorParams (o : Outline) : List JvmType :=
  .object (Name.toBinary o.bindings.interceptor) :: o.baseParams

/-- The instructions of the constructor. -/
def constructorOps {L : Type} (o : Outline) : List (Op L) :=
  [.load .reference 1, .string "interceptor",
    call .static "java/util/Objects" "requireNonNull"
      "(Ljava/lang/Object;Ljava/lang/String;)Ljava/lang/Object;",
    .pop, .load .reference 0] ++
  Boxing.pushParams o.baseParams 2 ++
  [call .special o.superName "<init>" (JvmType.methodDescriptor o.baseParams .void),
    .load .reference 0, .load .reference 1, .putField o.interceptorField, .ret none]

/-- The constructor. -/
def constructor (o : Outline) : MethodDraft where
  access := Access.isPublic
  name := "<init>"
  descriptor := JvmType.methodDescriptor (constructorParams o) .void
  body := some ⟨Line.straight (constructorOps o), []⟩
  exceptions := []

end Initializer

end Proxy

end ProxyForge
