import ProxyForge.Proofs.Inference.Straight
import ProxyForge.Proxy.Boxing
import ProxyForge.Proxy.Outline
/-!
# What generated code refers to

The classes, methods and fields that the code of a generated class names, written out. What is
proved of such code is said in these words, so that it does not lean on how the generator puts its
names together. That the generator means the same ones is proved here, once for each of them
(`Boxing.unboxValue_primitive`, `Outline.descriptorField_eq`, `Planned.targetMethod_eq`).
-/

namespace ProxyForge

namespace Proxy

open Code (FieldRef MethodRef Op)

/-! ## Classes and their wrappers -/

namespace Boxing

variable {L : Type}

/-- The name of a reference type in a constant: the internal name of a class, or the descriptor of
an array. -/
def constantName : JvmType → Option String
  | .object name => some (Name.toInternal name)
  | .array element => some (JvmType.array element).descriptor
  | _ => none

theorem internalName_eq (t : JvmType) : t.internalName = constantName t := by
  cases t <;> rfl

/-- The class whose objects wrap the values of a primitive. -/
def wrapperClass : Primitive → String
  | .boolean => "java/lang/Boolean"
  | .byte => "java/lang/Byte"
  | .char => "java/lang/Character"
  | .short => "java/lang/Short"
  | .int => "java/lang/Integer"
  | .long => "java/lang/Long"
  | .float => "java/lang/Float"
  | .double => "java/lang/Double"

/-- The name of its method that gives the value back. -/
def accessor : Primitive → String
  | .boolean => "booleanValue"
  | .byte => "byteValue"
  | .char => "charValue"
  | .short => "shortValue"
  | .int => "intValue"
  | .long => "longValue"
  | .float => "floatValue"
  | .double => "doubleValue"

/-- The method that makes an object of a primitive. -/
def wrapping (p : Primitive) : MethodRef :=
  ⟨wrapperClass p, "valueOf",
    "(" ++ (JvmType.primitive p).descriptor ++ ")L" ++ wrapperClass p ++ ";", false⟩

/-- The method that gives the primitive of an object back. -/
def unwrapping (p : Primitive) : MethodRef :=
  ⟨wrapperClass p, accessor p, "()" ++ (JvmType.primitive p).descriptor, false⟩

/-- The field with the class of a primitive. -/
def primitiveClass (p : Primitive) : FieldRef :=
  ⟨wrapperClass p, "TYPE", "Ljava/lang/Class;"⟩

theorem wrapper_eq (p : Primitive) : p.wrapper = wrapperClass p := by
  cases p <;> rfl

theorem unboxMethod_eq (p : Primitive) : p.unboxMethod = accessor p := by
  cases p <;> rfl

/-- **A primitive is boxed** by its wrapper. -/
theorem boxValue_primitive (p : Primitive) :
    boxValue (L := L) (.primitive p) = [.invoke .static (wrapping p)] := by
  rw [wrapping, ← wrapper_eq]
  rfl

theorem boxResult_primitive (p : Primitive) :
    boxResult (L := L) (.primitive p) = [.invoke .static (wrapping p)] := by
  rw [boxResult, if_neg JvmType.noConfusion, boxValue_primitive]

/-- **A primitive is unboxed** by the accessor of its wrapper. -/
theorem unboxValue_primitive (p : Primitive) : unboxValue (L := L) (.primitive p) =
    [.cast (wrapperClass p), .invoke .virtual (unwrapping p)] := by
  rw [unwrapping, ← wrapper_eq, ← unboxMethod_eq]
  rfl

/-- **A reference is cast** to its class, unless any object will do. -/
theorem unboxValue_reference {t : JvmType} {name : String} (ht : t.isReference)
    (hname : constantName t = some name) : unboxValue (L := L) t =
      if name = "java/lang/Object" then [] else [.cast name] := by
  cases t with
  | primitive p | void => cases ht
  | object _ | array _ =>
    unfold unboxValue
    rw [internalName_eq, hname]
    rfl

/-- **The class of a primitive** lies in a field of its wrapper. -/
theorem pushClass_primitive (p : Primitive) :
    pushClass (L := L) (.primitive p) = .getStatic (primitiveClass p) := by
  rw [primitiveClass, ← wrapper_eq]
  rfl

theorem parse_wrapping (p : Primitive) : JvmType.ofMethodDescriptor (wrapping p).descriptor =
    .ok ([.primitive p], .object (Name.toBinary (wrapperClass p))) :=
  JvmType.ofMethodDescriptor_of_eq (by cases p <;> decide +kernel) rfl
    (by cases p <;> decide +kernel)

theorem parse_unwrapping (p : Primitive) : JvmType.ofMethodDescriptor (unwrapping p).descriptor =
    .ok ([], .primitive p) :=
  JvmType.ofMethodDescriptor_of_eq (by cases p <;> decide +kernel) rfl rfl

end Boxing

/-! ## The runtime library -/

/-- The descriptor of the class of interceptors. -/
def interceptorType (b : Bindings) : String :=
  "L" ++ b.qualify "Interceptor" ++ ";"

/-- The descriptor of the class of member descriptors. -/
def memberType (b : Bindings) : String :=
  "L" ++ b.qualify "MemberDescriptor" ++ ";"

/-- The descriptor that `intercept` and `dispatch` share. -/
def callType (b : Bindings) : String :=
  "(Ljava/lang/Object;" ++ memberType b ++ "[Ljava/lang/Object;)Ljava/lang/Object;"

/-- The method that an interceptor is asked by. -/
def intercepting (b : Bindings) : MethodRef :=
  ⟨b.qualify "Interceptor", "intercept", callType b, true⟩

/-- The factory of member descriptors. -/
def describing (b : Bindings) : MethodRef :=
  ⟨b.qualify "MemberDescriptor", "of", "(Ljava/lang/reflect/Method;I)" ++ memberType b, false⟩

/-- The method by which a member descriptor tells its id. -/
def telling (b : Bindings) : MethodRef :=
  ⟨b.qualify "MemberDescriptor", "dispatchId", "()I", false⟩

theorem parse_telling (b : Bindings) :
    JvmType.ofMethodDescriptor (telling b).descriptor = .ok ([], .primitive .int) := by
  change JvmType.ofMethodDescriptor "()I" = _
  exact JvmType.ofMethodDescriptor_of_eq (by decide +kernel) rfl rfl

theorem Bindings.callDescriptor_eq (b : Bindings) : b.callDescriptor = callType b := rfl

/-! ## Fields and helpers of a generated class -/

/-- The static field with the descriptor of a member. -/
def memberField (thisName : String) (b : Bindings) (m : Planned) : FieldRef :=
  ⟨thisName, "m" ++ toString m.slot, memberType b⟩

/-- The field with the interceptor of an instance. -/
def interceptorField (thisName : String) (b : Bindings) : FieldRef :=
  ⟨thisName, "interceptor", interceptorType b⟩

/-- The field with the call target of a member. -/
def handleField (thisName : String) (m : Planned) : FieldRef :=
  ⟨thisName, "h" ++ toString m.slot, "Ljava/lang/invoke/MethodHandle;"⟩

/-- The helper that binds and calls the target of a member. -/
def helperMethod (thisName : String) (m : Planned) : MethodRef :=
  ⟨thisName, "invokeTarget" ++ toString m.slot,
    "(Ljava/lang/Object;[Ljava/lang/Object;)Ljava/lang/Object;", false⟩

theorem Outline.descriptorField_eq (o : Outline) (m : Planned) :
    o.descriptorField m = memberField o.thisName o.bindings m := rfl

theorem Outline.interceptorField_eq (o : Outline) :
    o.interceptorField = Proxy.interceptorField o.thisName o.bindings := rfl

/-- Members of interfaces, and only they, have a call target. -/
theorem Outline.targetField_eq (o : Outline) (m : Planned) : o.targetField m =
    if m.origin = .interface then some (handleField o.thisName m) else none := by
  unfold targetField Planned.targetField Planned.ifInterface
  cases m.origin <;> rfl

/-- Members of interfaces, and only they, are reached through a helper. -/
theorem Planned.targetMethod_eq (m : Planned) : m.targetMethod =
    if m.origin = .interface then some ("invokeTarget" ++ toString m.slot) else none := by
  unfold targetMethod ifInterface
  cases m.origin <;> rfl

end Proxy

end ProxyForge
