import ProxyForge.Proofs.Inference.Straight
import ProxyForge.Proofs.Layout.Encoding
import ProxyForge.Proxy.Outline
/-!
# Names of the runtime library

The descriptors that are put together from the names of the runtime library are read back, if the
package of the library has a name like that of a package (`Bindings.WellNamed`).
-/

namespace ProxyForge

namespace Name

/-- Can the internal name be part of a descriptor? -/
def isInternal (name : String) : Bool :=
  !name.toList.isEmpty && name.toList.all fun c => c ≠ '.' && c ≠ ';'

theorem ne_of_isInternal {name : String} (h : isInternal name) :
    ∀ c ∈ name.toList, c ≠ '.' ∧ c ≠ ';' := by
  intro c hc
  have hall := List.all_eq_true.1 (Bool.and_eq_true_iff.1 h).2 c hc
  simpa only [Bool.and_eq_true, decide_eq_true_eq] using hall

theorem toInternal_toBinary_of_isInternal {name : String} (h : isInternal name) :
    toInternal (toBinary name) = name :=
  toInternal_toBinary fun c hc => (ne_of_isInternal h c hc).1

/-- The binary form of an internal name can be read back. -/
theorem isReadable_toBinary {name : String} (h : isInternal name) : isReadable (toBinary name) := by
  rw [isReadable, Bool.and_eq_true_iff, toList_toBinary]
  refine ⟨by simpa using (Bool.and_eq_true_iff.1 h).1, List.all_eq_true.2 fun c hc => ?_⟩
  obtain ⟨d, hd, rfl⟩ := List.mem_map.1 hc
  have hne := (ne_of_isInternal h d hd).2
  simp only [isInner, Bool.and_eq_true, decide_eq_true_eq]
  split
  · decide
  · exact ⟨‹_›, hne⟩

end Name

namespace Proxy

open Code (FieldRef SlotType TypeState)

/-- The descriptor of a class is that of the type. -/
theorem Bindings.classDescriptor_eq {name : String} (h : Name.isInternal name) :
    classDescriptor name = (JvmType.object (Name.toBinary name)).descriptor := by
  refine String.toList_injective ?_
  rw [JvmType.toList_descriptor, JvmType.descriptorChars,
    Name.toInternal_toBinary_of_isInternal h]
  simp [classDescriptor, String.toList_append]

/-- **A field with the descriptor of a class** has an object of it. -/
theorem fieldValue_classDescriptor {owner field name : String} (h : Name.isInternal name) :
    TypeState.fieldValue ⟨owner, field, Bindings.classDescriptor name⟩ = .ok (.object name) := by
  have hd := JvmType.ofDescriptor_descriptor
    (t := .object (Name.toBinary name)) (Name.isReadable_toBinary h)
  unfold TypeState.fieldValue
  rw [Bindings.classDescriptor_eq h]
  dsimp only
  rw [hd]
  change Except.ok (SlotType.object (Name.toInternal (Name.toBinary name))) = _
  rw [Name.toInternal_toBinary_of_isInternal h]

namespace Bindings

/-- **The types of the library have names** that can be part of a descriptor. -/
structure WellNamed (b : Bindings) : Prop where
  interceptor : Name.isInternal b.interceptor
  memberDescriptor : Name.isInternal b.memberDescriptor

variable {b : Bindings}

/-- A library in a package that has a binary name, or in none. -/
theorem wellNamed_ofPackage {package : String} (h : package = "" ∨ Name.isBinary package) :
    (ofPackage package).WellNamed := by
  have hall : ∀ simple, Name.isInternal simple →
      Name.isInternal ((ofPackage package).qualify simple) := by
    intro simple hsimple
    unfold qualify ofPackage
    split
    · exact hsimple
    · rename_i hne
      rcases h with rfl | hbinary
      · exact absurd (by cbv) hne
      have hreadable := JvmType.isReadable_of_isBinary hbinary
      have hslashes : ∀ c ∈ (Name.toInternal package).toList, c ≠ '.' ∧ c ≠ ';' := by
        intro c hc
        refine ⟨?_, Name.ne_semicolon_of_mem hreadable hc⟩
        rw [Name.toList_toInternal] at hc
        obtain ⟨d, -, rfl⟩ := List.mem_map.1 hc
        split
        · decide
        · exact ‹_›
      rw [Name.isInternal, Bool.and_eq_true_iff, String.toList_append, String.toList_append]
      refine ⟨by simp, List.all_eq_true.2 fun c hc => ?_⟩
      simp only [Bool.and_eq_true, decide_eq_true_eq]
      rcases List.mem_append.1 hc with hc | hc
      · rcases List.mem_append.1 hc with hc | hc
        · exact hslashes c hc
        · rw [List.mem_singleton.1 hc]
          decide
      · exact Name.ne_of_isInternal hsimple c hc
  exact ⟨hall _ (by cbv), hall _ (by cbv)⟩

theorem WellNamed.isReadable (h : b.WellNamed) :
    (JvmType.object (Name.toBinary b.memberDescriptor)).isReadable :=
  Name.isReadable_toBinary h.memberDescriptor

/-- **The descriptor of `dispatch` and `intercept` is read back.** -/
theorem WellNamed.callDescriptor (h : b.WellNamed) :
    JvmType.ofMethodDescriptor b.callDescriptor =
      .ok ([.anyObject, .object (Name.toBinary b.memberDescriptor), .array .anyObject],
        .anyObject) := by
  have hobject : JvmType.anyObject.descriptorChars = "Ljava/lang/Object;".toList := by
    cbv
  have harray : (JvmType.array .anyObject).descriptorChars = "[Ljava/lang/Object;".toList := by
    cbv
  have hmember := congrArg String.toList (classDescriptor_eq h.memberDescriptor)
  rw [JvmType.toList_descriptor] at hmember
  have htext : b.callDescriptor = JvmType.methodDescriptor
      [.anyObject, .object (Name.toBinary b.memberDescriptor), .array .anyObject]
      .anyObject := by
    refine String.toList_injective ?_
    unfold Bindings.callDescriptor
    simp only [String.toList_append, hmember, JvmType.toList_methodDescriptor,
      JvmType.methodDescriptorChars, List.flatMap_cons, List.flatMap_nil, hobject, harray]
    simp
  refine JvmType.ofMethodDescriptor_of_eq htext ?_ (by cbv)
  have hany : JvmType.anyObject.isReadableValue := by cbv
  have hreadable : (JvmType.array .anyObject).isReadableValue := by cbv
  have hclass : (JvmType.object (Name.toBinary b.memberDescriptor)).isReadableValue :=
    Bool.and_eq_true_iff.2 ⟨decide_eq_true JvmType.noConfusion, h.isReadable⟩
  rw [List.all_cons, List.all_cons, List.all_cons, hany, hclass, hreadable]
  rfl

/-- **The descriptor of the factory is read back.** -/
theorem WellNamed.factoryDescriptor (h : b.WellNamed) :
    JvmType.ofMethodDescriptor b.factoryDescriptor =
      .ok ([.object "java.lang.reflect.Method", .primitive .int],
        .object (Name.toBinary b.memberDescriptor)) := by
  have hmethod : (JvmType.object "java.lang.reflect.Method").descriptorChars =
      "Ljava/lang/reflect/Method;".toList := by cbv
  have hint : (JvmType.primitive .int).descriptorChars = "I".toList := by cbv
  have hmember := congrArg String.toList (classDescriptor_eq h.memberDescriptor)
  rw [JvmType.toList_descriptor] at hmember
  have htext : b.factoryDescriptor = JvmType.methodDescriptor
      [.object "java.lang.reflect.Method", .primitive .int]
      (.object (Name.toBinary b.memberDescriptor)) := by
    refine String.toList_injective ?_
    unfold Bindings.factoryDescriptor
    simp only [String.toList_append, hmember, JvmType.toList_methodDescriptor,
      JvmType.methodDescriptorChars, List.flatMap_cons, List.flatMap_nil, hmethod, hint]
    simp
  exact JvmType.ofMethodDescriptor_of_eq htext (by cbv) h.isReadable

end Bindings

end Proxy

end ProxyForge
