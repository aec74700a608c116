import ProxyForge.Proxy.Boxing
import ProxyForge.Proxy.Outline
/-!
# Forwarders

Every planned member has a forwarder, which packs its arguments and asks the interceptor. A result
that is missing where a primitive is due is a `NullPointerException`. Declared and unchecked
exceptions of the interceptor pass through; any other is wrapped.
-/

namespace ProxyForge

namespace Proxy

namespace Forwarder

open Code (Op Kind Label Line Body Handler MethodDraft)
open Boxing (call)

/-- The places of a forwarder. -/
def startLabel : Label := 0

def endLabel : Label := 1

def rethrowLabel : Label := 2

def wrapLabel : Label := 3

def presentLabel : Label := 4

/-- The exception that wraps one which is not declared. -/
def undeclared : String := "java/lang/reflect/UndeclaredThrowableException"

/-- Ask the interceptor. -/
def intercept {L : Type} (o : Outline) (m : Planned) : List (Op L) :=
  [.load .reference 0, .getField o.interceptorField, .load .reference 0,
    .getStatic (o.descriptorField m)] ++
  Boxing.packParams m.signature.params 1 ++
  [.invoke .interface ⟨o.bindings.interceptor, "intercept", o.bindings.callDescriptor, true⟩]

/-- Return what the interceptor answers as a result of a type. -/
def answer (t : JvmType) : List Line :=
  match Kind.ofType t with
  | none => Line.straight [.pop, .ret none]
  | some .reference => Line.straight (Boxing.unboxValue t ++ [.ret (some .reference)])
  | some kind =>
    Line.straight ([.dup, .jump .ifNonNull presentLabel] ++
      Op.throwNew "java/lang/NullPointerException" "missing value") ++
    Line.block presentLabel (Boxing.unboxValue t ++ [.ret (some kind)])

/-- The local that holds an exception which is wrapped, behind the parameters. -/
def causeSlot (m : Planned) : UInt16 :=
  1 + m.signature.paramSlots

/-- Throw the caught exception as the cause of another one. -/
def wrap {L : Type} (cause : UInt16) : List (Op L) :=
  [.store .reference cause, .new undeclared, .dup, .load .reference cause,
    call .special undeclared "<init>" "(Ljava/lang/Throwable;)V", .throw]

/-- An exception of the interceptor and the place that it leads to. -/
def guard (handler : Label) (name : String) : Handler Label :=
  ⟨startLabel, endLabel, handler, some name⟩

/-- The exceptions that pass through. -/
def passing (m : Planned) : List String :=
  Outline.thrownClasses m ++ ["java/lang/RuntimeException", "java/lang/Error"]

/-- The body of a forwarder. -/
def body (o : Outline) (m : Planned) : Body where
  lines :=
    Line.block startLabel (intercept o m) ++ .mark endLabel :: answer m.signature.result ++
    Line.block rethrowLabel [.throw] ++
    Line.block wrapLabel (wrap (causeSlot m))
  handlers :=
    (passing m).map (guard rethrowLabel) ++ [guard wrapLabel "java/lang/Throwable"]

/-- The forwarder of a member. -/
def method (o : Outline) (m : Planned) : MethodDraft where
  access := Access.isPublic ||| Access.isFinal
  name := m.signature.name
  descriptor := m.signature.descriptor
  body := some (body o m)
  exceptions := Outline.thrownClasses m

end Forwarder

end Proxy

end ProxyForge
