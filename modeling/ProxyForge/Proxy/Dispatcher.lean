import ProxyForge.Proxy.Boxing
import ProxyForge.Proxy.Initializer
import ProxyForge.Proxy.Outline
/-!
# The dispatcher

What the interceptor calls to reach the real implementation. `dispatch` switches on the id of a
member: a universal member or one of the base is called on the superclass, a member of an
interface through a helper of its own. The helper finds the receiver's method when it is first
called, under the monitor of the instance, and keeps it.
-/

namespace ProxyForge

namespace Proxy

namespace Dispatcher

open Code (Op Label Line Body Handler MethodDraft FieldRef)
open Boxing (call)

/-- What `dispatch` and its helpers declare. -/
def thrown : List String := ["java/lang/Throwable"]

/-! ## Dispatch -/

/-- The place for an id of no member. -/
def unknownLabel : Label := 0

/-- The place for a member. -/
def memberLabel (m : Planned) : Label :=
  m.slot.toNat + 1

/-- The descriptor of the helpers. -/
def helperDescriptor : String :=
  "(Ljava/lang/Object;[Ljava/lang/Object;)Ljava/lang/Object;"

/-- Reach the implementation of a member and return its boxed result. -/
def reach {L : Type} (o : Outline) (m : Planned) : List (Op L) :=
  (match m.targetMethod with
    | some helper =>
      [.load .reference 0, .load .reference 1, .load .reference 3,
        call .special o.thisName helper helperDescriptor]
    | none =>
      .load .reference 0 :: Boxing.unpackParams m.signature.params 3 ++
        [call .special o.superName m.signature.name m.signature.descriptor] ++
        Boxing.boxResult m.signature.result) ++
  [.ret (some .reference)]

/-- The members in ascending order of their ids. -/
def byId (members : List Planned) : List Planned :=
  members.mergeSort fun a b => a.id ≤ b.id

/-- The body of `dispatch`. -/
def dispatchBody (o : Outline) : Body where
  lines :=
    let members := byId o.plan.members
    Line.straight [.load .reference 2,
      call .virtual o.bindings.memberDescriptor "dispatchId" "()I",
      .lookupSwitch unknownLabel (members.map fun m => (m.id, memberLabel m))] ++
    members.flatMap (fun m => Line.block (memberLabel m) (reach o m)) ++
    Line.block unknownLabel
      (Op.throwNew "java/lang/IllegalArgumentException" "unknown dispatch id")
  handlers := []

/-- The method `dispatch`. -/
def dispatch (o : Outline) : MethodDraft where
  access := Access.isPublic ||| Access.isFinal
  name := "dispatch"
  descriptor := o.bindings.callDescriptor
  body := some (dispatchBody o)
  exceptions := thrown

/-! ## Helpers -/

/-- The places of a helper. -/
def readyLabel : Label := 0

def lockedLabel : Label := 1

def unlockLabel : Label := 2

def unlockedLabel : Label := 3

def failedLabel : Label := 4

def releasedLabel : Label := 5

/-- The class that finds methods. -/
def lookupClass : String := "java/lang/invoke/MethodHandles$Lookup"

/-- The class of method types. -/
def methodType : String := "java/lang/invoke/MethodType"

/-- The descriptor of a class. -/
def described (name : String) : String :=
  Bindings.classDescriptor name

/-- Find the method of a member and bind it to the receiver. -/
def bindTarget {L : Type} (m : Planned) : List (Op L) :=
  [call .static "java/lang/invoke/MethodHandles" "lookup" ("()" ++ described lookupClass)] ++
  Initializer.pushLoadedClass m.declaring ++
  [.string m.signature.name, Boxing.pushClass m.signature.result] ++
  Boxing.pushClasses m.signature.params ++
  [call .static methodType "methodType"
      ("(" ++ described Boxing.classClass ++ "[" ++ described Boxing.classClass ++ ")" ++
        described methodType),
    call .virtual lookupClass "findVirtual"
      ("(" ++ described Boxing.classClass ++ "Ljava/lang/String;" ++ described methodType ++ ")" ++
        described Outline.methodHandle),
    .load .reference 1,
    call .virtual Outline.methodHandle "bindTo"
      ("(" ++ described Boxing.objectClass ++ ")" ++ described Outline.methodHandle)]

/-- The body of the helper with a field. The locals are the instance, the receiver, the arguments,
the object whose monitor is held, and an exception that waits for its release. -/
def helperBody (m : Planned) (field : FieldRef) : Body where
  lines :=
    Line.straight [.load .reference 0, .getField field, .jump .ifNonNull readyLabel,
      .load .reference 0, .dup, .store .reference 3, .monitorEnter] ++
    Line.block lockedLabel ([.load .reference 0, .getField field, .jump .ifNonNull unlockLabel,
      .load .reference 0] ++ bindTarget m ++ [.putField field]) ++
    Line.block unlockLabel [.load .reference 3, .monitorExit] ++
    Line.block unlockedLabel [.jump .always readyLabel] ++
    Line.block failedLabel [.store .reference 4, .load .reference 3, .monitorExit] ++
    Line.block releasedLabel [.load .reference 4, .throw] ++
    Line.block readyLabel ([.load .reference 0, .getField field] ++
      Boxing.unpackParams m.signature.params 2 ++
      [call .virtual Outline.methodHandle "invokeExact" m.signature.descriptor] ++
      Boxing.boxResult m.signature.result ++ [.ret (some .reference)])
  handlers :=
    [⟨lockedLabel, unlockedLabel, failedLabel, none⟩,
      ⟨failedLabel, releasedLabel, failedLabel, none⟩]

/-- The helper of a member, if it comes from an interface. -/
def helper (o : Outline) (m : Planned) : Option MethodDraft := do
  let name ← m.targetMethod
  let field ← o.targetField m
  return {
    access := Access.isPrivate ||| Access.isFinal
    name := name
    descriptor := helperDescriptor
    body := some (helperBody m field)
    exceptions := thrown }

end Dispatcher

end Proxy

end ProxyForge
