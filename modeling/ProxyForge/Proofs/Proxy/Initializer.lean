import ProxyForge.Proofs.Draft.Acceptance
import ProxyForge.Proofs.Proxy.Budget
import ProxyForge.Proofs.Proxy.Naming
import ProxyForge.Proofs.Proxy.Ordinary
import ProxyForge.Proxy.Initializer
/-!
# Initializers are accepted

There is nothing wrong with the code of the class initializer
(`Initializer.sound_classInitializer`) and of the constructor (`Initializer.sound_constructor`).
The class initializer runs on an empty stack from one member to the next; the constructor completes
its instance before it keeps the interceptor.
-/

namespace ProxyForge

namespace Code

open Outcome

namespace TypeState

variable {m : MethodHeader} {params : List JvmType} {result : JvmType}

/-- What is known at the start of a method whose descriptor is read. -/
theorem entry_of_descriptor (hd : JvmType.ofMethodDescriptor m.descriptor = .ok (params, result)) :
    entry m = .ok ⟨receiver m ++ params.flatMap parameterSlots, []⟩ := by
  unfold entry
  rw [hd]

theorem receiver_of_isStatic (h : m.isStatic = true) : receiver m = [] :=
  if_pos h

/-- A method of an instance has a receiver, which is no wide value. -/
theorem exists_receiver (h : m.isStatic = false) :
    ∃ v, receiver m = [v] ∧ v.fits .reference ∧
      (m.name = constructorName → v = .uninitializedThis) ∧
      (m.name ≠ constructorName → v = .object m.thisClass) := by
  unfold receiver
  rw [h, if_neg Bool.false_ne_true]
  by_cases hname : m.name = constructorName
  · rw [if_pos hname]
    exact ⟨_, rfl, rfl, fun _ => rfl, fun hne => absurd hname hne⟩
  · rw [if_neg hname]
    exact ⟨_, rfl, rfl, fun heq => absurd heq hname, fun _ => rfl⟩

/-- Less is known of fewer locals. -/
theorem append_le (locals locals' stack : List SlotType) :
    (⟨locals ++ locals', stack⟩ : TypeState) ≤ ⟨locals, stack⟩ := by
  refine ⟨fun i => ?_, List.forall₂_refl _⟩
  rcases Nat.lt_or_ge i locals.length with hi | hi
  · exact le_of_eq (by simp [slotAt, List.getElem?_append_left hi])
  · rw [slotAt_of_length_le hi]
    exact SlotType.le_top _

/-- A state without wide values is paired. -/
theorem Paired.of_narrow {s : TypeState} (hlocals : ∀ v ∈ s.locals, v.isWide = false)
    (hstack : SlotType.top ∉ s.stack) : s.Paired := by
  refine ⟨fun i hi => ?_, hstack⟩
  unfold isWideAt at hi
  rcases hv : s.locals[i]? with - | v
  · rw [hv] at hi
    cases hi
  · rw [hv] at hi
    exact absurd hi (by simp [hlocals v (List.mem_of_getElem? hv)])

theorem Paired.raised {s : TypeState} (h : s.Paired) : s.raised.Paired :=
  h.handler SlotType.noConfusion

end TypeState

theorem MethodDraft.isStatic_shape (thisName : String) (draft : MethodDraft) :
    (draft.shape thisName).isStatic = Access.has draft.access Access.isStatic := rfl

/-- **A body with a certificate is sound.** -/
theorem ClassDraft.Sound.of_certificate {shape : MethodHeader} {body : Body} {e : TypeState}
    {ss : List Stretch} (he : TypeState.entry shape = .ok e) (hc : Certificate shape e body ss)
    (hwritable : ∀ op ∈ body.ops, op.Writable) : ClassDraft.Sound shape body where
  program := hc.exists_program
  writable := hwritable
  entry := ⟨e, he⟩
  certificate := fun p l e' _ he' => by
    cases he.symm.trans he'
    exact ⟨ss, hc⟩

end Code

namespace Proxy

namespace Initializer

open Code (Op Kind Label Line Body MethodHeader SlotType Straight TypeState Stretch Certificate)
open Code.ClassDraft (Sound)
open Code.Stretch (Flows Linked Accepts)
open Boxing (call)

variable {m : MethodHeader} {locals stack : List SlotType} {o : Outline}

/-! ## Pieces -/

theorem straight_pushLoadedClass (name : String) : Straight m locals stack (pushLoadedClass name)
    (.object (Name.toInternal "java.lang.Class") :: stack) := by
  have hd : JvmType.ofMethodDescriptor "(Ljava/lang/String;)Ljava/lang/Class;" =
      .ok ([.object "java.lang.String"], .object "java.lang.Class") :=
    JvmType.ofMethodDescriptor_of_eq (by cbv) (by cbv) (by cbv)
  exact (Straight.string name).front
    (.callStatic hd (.cons (SlotType.passes_reference rfl rfl) .nil))

/-- **A descriptor field is filled**, and the stack is as before. -/
theorem straight_fillDescriptor (hb : o.bindings.WellNamed) (p : Planned) :
    Straight m locals stack (fillDescriptor o p) stack := by
  have hlookup : JvmType.ofMethodDescriptor
      "(Ljava/lang/String;[Ljava/lang/Class;)Ljava/lang/reflect/Method;" =
        .ok ([.object "java.lang.String", .array (.object "java.lang.Class")],
          .object "java.lang.reflect.Method") :=
    JvmType.ofMethodDescriptor_of_eq (by cbv) (by cbv) (by cbv)
  refine Straight.append (Straight.append (Straight.append (straight_pushLoadedClass _)
    (.string _)) (Boxing.straight_pushClasses _)) ?_
  refine (Straight.callVirtual hlookup
    (.cons (SlotType.passes_reference rfl rfl)
      (.cons (SlotType.passes_reference rfl rfl) .nil)) rfl).front ?_
  refine (Straight.int p.id).front ?_
  refine Straight.front (Straight.callStatic hb.factoryDescriptor
    (.cons (SlotType.passes_reference rfl rfl) (.cons ⟨.int, rfl, rfl⟩ .nil))) ?_
  exact .putStatic _

/-- All descriptor fields are filled. -/
theorem straight_fillDescriptors (hb : o.bindings.WellNamed) (members : List Planned) :
    Straight m locals stack (members.flatMap (fillDescriptor o)) stack := by
  induction members with
  | nil => exact .nil _
  | cons p members ih =>
    rw [List.flatMap_cons]
    exact (straight_fillDescriptor hb p).append ih

/-- **An error is thrown** for what was caught. -/
theorem flows_throwAs {offset : Nat → Nat} {ss : List Stretch} {i : Nat} (error : String) :
    Flows m offset ss [] i (TypeState.raised ⟨[], []⟩) (throwAs error) none := by
  have hmessage : JvmType.ofMethodDescriptor "()Ljava/lang/String;" =
      .ok ([], .object "java.lang.String") :=
    JvmType.ofMethodDescriptor_of_eq (by cbv) rfl (by cbv)
  have hinit : JvmType.ofMethodDescriptor "(Ljava/lang/String;)V" =
      .ok ([.object "java.lang.String"], .void) :=
    JvmType.ofMethodDescriptor_of_eq (by cbv) (by cbv) rfl
  have hargs : ∀ u : SlotType, Straight m [.object Code.objectClass] [u, u]
      [.load .reference 0,
        call .virtual "java/lang/Throwable" "getMessage" "()Ljava/lang/String;"]
      ([SlotType.object (Name.toInternal "java.lang.String")].reverse ++ [u, u]) := fun u =>
    (Straight.load (v := .object Code.objectClass) rfl rfl).front
      (Straight.callVirtual hmessage .nil rfl)
  exact Flows.store rfl (List.forall_mem_nil _) (List.forall_mem_nil _)
    (Flows.throwNew hargs hinit (.cons (SlotType.passes_reference rfl rfl) .nil))

/-! ## The class initializer -/

/-- The stretches of the class initializer, if there are members. -/
def classStretches (o : Outline) : List Stretch :=
  [⟨⟨some startLabel, o.plan.members.flatMap (fillDescriptor o)⟩, ⟨[], []⟩,
      [noMethodLabel, noClassLabel]⟩,
    ⟨⟨some endLabel, [.ret none]⟩, ⟨[], []⟩, []⟩,
    ⟨⟨some noMethodLabel, throwAs "java/lang/NoSuchMethodError"⟩, TypeState.raised ⟨[], []⟩, []⟩,
    ⟨⟨some noClassLabel, throwAs "java/lang/NoClassDefFoundError"⟩, TypeState.raised ⟨[], []⟩, []⟩]

theorem classBody_eq (h : o.plan.members ≠ []) : classBody o =
    { lines :=
        Line.block startLabel (o.plan.members.flatMap (fillDescriptor o)) ++
        Line.block endLabel [.ret none] ++
        Line.block noMethodLabel (throwAs "java/lang/NoSuchMethodError") ++
        Line.block noClassLabel (throwAs "java/lang/NoClassDefFoundError")
      handlers :=
        [⟨startLabel, endLabel, noMethodLabel, some "java/lang/NoSuchMethodException"⟩,
          ⟨startLabel, endLabel, noClassLabel, some "java/lang/ClassNotFoundException"⟩] } :=
  if_neg fun hempty => h (List.isEmpty_iff.1 hempty)

theorem paired_empty : (⟨[], []⟩ : TypeState).Paired :=
  .of_narrow (List.forall_mem_nil _) List.not_mem_nil

theorem certificate_classBody (hb : o.bindings.WellNamed) (hmembers : o.plan.members ≠ []) :
    Certificate m ⟨[], []⟩ (classBody o) (classStretches o) := by
  rw [classBody_eq hmembers]
  have haccepts : ∀ label ∈ [noMethodLabel, noClassLabel],
      Accepts (classStretches o) label (TypeState.raised ⟨[], []⟩) := by
    intro label hlabel
    simp only [List.mem_cons, List.not_mem_nil, or_false] at hlabel
    rcases hlabel with rfl | rfl
    · exact ⟨_, List.mem_of_getElem? (i := 2) rfl, rfl, le_refl _⟩
    · exact ⟨_, List.mem_of_getElem? (i := 3) rfl, rfl, le_refl _⟩
  have hfill : o.plan.members.flatMap (fillDescriptor (L := Label) o) ≠ [] := by
    obtain ⟨p, members, hp⟩ := List.exists_cons_of_ne_nil hmembers
    rw [hp]
    exact List.cons_ne_nil _ _
  have hflows : ∀ offset, Flows m offset (classStretches o) [noMethodLabel, noClassLabel] 0
      ⟨[], []⟩ (o.plan.members.flatMap (fillDescriptor o)) (some ⟨[], []⟩) :=
    fun offset => Flows.of_straight (straight_fillDescriptors hb o.plan.members) haccepts
  have hnodup : [startLabel, endLabel, noMethodLabel, noClassLabel].Nodup := by decide
  refine ⟨?_, hnodup, ?_, ⟨_, _, rfl, le_refl _, ?_⟩, ?_, fun offset => ?_, ?_⟩
  · simp [Code.Block.linesOf, Code.Block.lines, Stretch.blocks, classStretches]
  · simp only [classStretches, List.forall_mem_cons]
    exact ⟨hfill, List.cons_ne_nil _ _, List.cons_ne_nil _ _, List.cons_ne_nil _ _,
      List.forall_mem_nil _⟩
  · refine .cons (.passed _ rfl ((hflows id).passesOn hfill)) <|
      .cons (.raised _ List.mem_cons_self rfl _ List.mem_cons_self rfl) <|
      .cons (.raised _ (List.mem_cons_of_mem _ List.mem_cons_self) rfl _ List.mem_cons_self rfl) <|
      .nil _
  · simp only [classStretches, List.forall_mem_cons]
    exact ⟨paired_empty, paired_empty, paired_empty.raised, paired_empty.raised,
      List.forall_mem_nil _⟩
  · refine .cons (hflows offset) (fun t ht => ?_) ?_
    · cases ht
      exact ⟨_, _, rfl, le_refl _⟩
    · exact .cons (Flows.ret (List.forall_mem_nil _)) (by simp) <|
        .cons (flows_throwAs _) (by simp) <| .cons (flows_throwAs _) (by simp) <| .nil _
  · have hguarded : ∀ label caught, label ∈ [noMethodLabel, noClassLabel] →
        ∃ pre mid post, Stretch.Guarded (classStretches o) ⟨startLabel, endLabel, label, caught⟩
          pre mid post := fun label caught hlabel =>
      ⟨[], [_], _, rfl, ⟨_, _, rfl, rfl⟩, ⟨_, _, rfl, rfl⟩, fun s hs => by
        rw [List.mem_singleton.1 hs]
        exact hlabel⟩
    intro h hh
    simp only [List.mem_cons, List.not_mem_nil, or_false] at hh
    rcases hh with rfl | rfl
    · exact hguarded _ _ (by simp)
    · exact hguarded _ _ (by simp)

theorem all_fillDescriptor (o : Outline) (p : Planned) :
    (fillDescriptor (L := Label) o p).all Op.isOrdinary := by
  unfold fillDescriptor
  rw [List.all_append, List.all_append, List.all_append, Boxing.all_pushClasses]
  rfl

theorem all_classBody (o : Outline) : (classBody o).ops.all (Op.isRegular none) := by
  by_cases hmembers : o.plan.members = []
  · have hbody : classBody o = ⟨Line.straight [.ret none], []⟩ :=
      if_pos (List.isEmpty_iff.2 hmembers)
    rw [hbody]
    rfl
  · have hfill : (o.plan.members.flatMap (fillDescriptor (L := Label) o)).all Op.isOrdinary := by
      rw [List.all_flatMap]
      exact List.all_eq_true.2 fun p _ => all_fillDescriptor o p
    rw [classBody_eq hmembers]
    simp only [Body.ops, Body.opsOf_append, Body.opsOf_block, List.all_append,
      Op.all_isRegular hfill, Bool.true_and]
    rfl

theorem parse_classInitializer (o : Outline) :
    JvmType.ofMethodDescriptor (classInitializer o).descriptor = .ok ([], .void) := by
  change JvmType.ofMethodDescriptor "()V" = _
  exact JvmType.ofMethodDescriptor_of_eq (by cbv) rfl rfl

theorem entry_classInitializer (thisName : String) :
    TypeState.entry ((classInitializer o).shape thisName) = .ok ⟨[], []⟩ := by
  have hstatic : Access.has (classInitializer o).access Access.isStatic = true := by
    change Access.has Access.isStatic Access.isStatic = true
    decide
  have hentry := TypeState.entry_of_descriptor (m := (classInitializer o).shape thisName)
    (parse_classInitializer o)
  rwa [TypeState.receiver_of_isStatic ((Code.MethodDraft.isStatic_shape _ _).trans hstatic)]
    at hentry

/-- **Nothing is wrong with the class initializer.** -/
theorem sound_classInitializer (hb : o.bindings.WellNamed) (thisName : String) :
    Sound ((classInitializer o).shape thisName) (classBody o) := by
  have hwritable : ∀ op ∈ (classBody o).ops, op.Writable := fun op hop =>
    Op.writable_of_isRegular (List.all_eq_true.1 (all_classBody o) op hop)
  by_cases hmembers : o.plan.members = []
  · have hbody : classBody o = ⟨Line.straight [.ret none], []⟩ :=
      if_pos (List.isEmpty_iff.2 hmembers)
    rw [hbody] at hwritable ⊢
    have hcertificate : Certificate ((classInitializer o).shape thisName) ⟨[], []⟩
        ⟨Line.straight [.ret none], []⟩ [⟨⟨none, [.ret none]⟩, ⟨[], []⟩, []⟩] := by
      refine ⟨rfl, List.nodup_nil, ?_, ⟨_, _, rfl, le_refl _, .nil _⟩, ?_, fun offset => ?_,
    List.forall_mem_nil _⟩
      · simp
      · simpa using paired_empty
      · exact .cons (Flows.ret (List.forall_mem_nil _)) (by simp) (.nil _)
    exact .of_certificate (entry_classInitializer thisName) hcertificate hwritable
  · exact .of_certificate (entry_classInitializer thisName) (certificate_classBody hb hmembers)
      hwritable

/-! ## The constructor -/

/-- What is known in front of the constructor. -/
def constructorEntry (o : Outline) : TypeState :=
  ⟨.uninitializedThis :: .object (Name.toInternal (Name.toBinary o.bindings.interceptor)) ::
    Boxing.slotsOf o.baseParams, []⟩

theorem isInternal_ofPackage_interceptor (hb : o.bindings.WellNamed) :
    (JvmType.object (Name.toBinary o.bindings.interceptor)).isReadableValue :=
  Bool.and_eq_true_iff.2
    ⟨decide_eq_true JvmType.noConfusion, Name.isReadable_toBinary hb.interceptor⟩

theorem parse_constructor (hb : o.bindings.WellNamed)
    (hparams : ∀ t ∈ o.baseParams, t.isReadableValue) :
    JvmType.ofMethodDescriptor (constructor o).descriptor = .ok (constructorParams o, .void) := by
  refine JvmType.ofMethodDescriptor_methodDescriptor (fun t ht => ?_) rfl
  rcases List.mem_cons.1 ht with rfl | ht
  · exact isInternal_ofPackage_interceptor hb
  · exact hparams t ht

theorem entry_constructor (hb : o.bindings.WellNamed)
    (hparams : ∀ t ∈ o.baseParams, t.isReadableValue) (thisName : String) :
    TypeState.entry ((constructor o).shape thisName) = .ok (constructorEntry o) := by
  have hinstance : Access.has (constructor o).access Access.isStatic = false := by
    change Access.has Access.isPublic Access.isStatic = false
    decide
  obtain ⟨v, hreceiver, -, hname, -⟩ :=
    TypeState.exists_receiver ((Code.MethodDraft.isStatic_shape thisName _).trans hinstance)
  have hentry := TypeState.entry_of_descriptor (m := (constructor o).shape thisName)
    (parse_constructor hb hparams)
  rw [hreceiver, hname rfl] at hentry
  exact hentry

theorem all_constructorOps (o : Outline) :
    (constructorOps (L := Label) o).all (Op.isRegular none) := by
  unfold constructorOps
  rw [List.all_append, List.all_append, Op.all_isRegular (Boxing.all_pushParams _ _)]
  rfl

/-- The constructor returns nothing. -/
theorem all_constructorBody (o : Outline) :
    (⟨Line.straight (constructorOps o), []⟩ : Body).ops.all (Op.isRegular none) := by
  rw [Body.ops, Body.opsOf_straight]
  exact all_constructorOps o

/-- The parameters of the superclass's constructor lie behind the interceptor. -/
theorem lieAt_constructorEntry
    (hbound : 2 + (Boxing.slotsOf o.baseParams).length < 65536) :
    Boxing.LieAt (constructorEntry o).locals 2 o.baseParams :=
  ⟨⟨[_, _], [], by rw [List.append_nil]; rfl, rfl⟩, hbound⟩

/-- **The constructor runs**: it completes the instance and keeps the interceptor. -/
theorem flows_constructor (hparams : ∀ t ∈ o.baseParams, t.isReadableValue)
    (hlocals : Boxing.LieAt (constructorEntry o).locals 2 o.baseParams) (offset : Nat → Nat)
    (ss : List Stretch) :
    Flows m offset ss [] 0 (constructorEntry o) (constructorOps o) none := by
  have hvalues : ∀ t ∈ o.baseParams, t ≠ .void := fun t ht =>
    of_decide_eq_true (Bool.and_eq_true_iff.1 (hparams t ht)).1
  obtain ⟨vs, hvs, hpush⟩ := Boxing.straight_pushParams (m := m) hvalues hlocals
  have hrequire : JvmType.ofMethodDescriptor
      "(Ljava/lang/Object;Ljava/lang/String;)Ljava/lang/Object;" =
        .ok ([.object "java.lang.Object", .object "java.lang.String"],
          .object "java.lang.Object") :=
    JvmType.ofMethodDescriptor_of_eq (by cbv) (by cbv) (by cbv)
  have hsuper : JvmType.ofMethodDescriptor (JvmType.methodDescriptor o.baseParams .void) =
      .ok (o.baseParams, .void) :=
    JvmType.ofMethodDescriptor_methodDescriptor hparams rfl
  -- up to the call the instance is not complete
  have hfront : Straight m (constructorEntry o).locals []
      ([.load .reference 1, .string "interceptor",
        call .static "java/util/Objects" "requireNonNull"
          "(Ljava/lang/Object;Ljava/lang/String;)Ljava/lang/Object;",
        .pop, .load .reference 0] ++ Boxing.pushParams o.baseParams 2)
      (vs.reverse ++ [.uninitializedThis]) := by
    refine Straight.append ?_ (hpush _)
    refine (Straight.load (v := .object _) rfl rfl).front <| (Straight.string _).front ?_
    refine Straight.front (Straight.callStatic hrequire
      (.cons (SlotType.passes_reference rfl rfl)
        (.cons (SlotType.passes_reference rfl rfl) .nil))) ?_
    exact (Straight.pop rfl).front (Straight.load rfl rfl)
  -- behind it every copy of the instance is
  have hback : Straight m ((constructorEntry o).locals.map fun t =>
      if t = .uninitializedThis then .object m.thisClass else t) []
      [.load .reference 0, .load .reference 1, .putField o.interceptorField] [] :=
    (Straight.load (v := .object m.thisClass) rfl rfl).front <|
      (Straight.load (v := .object _) rfl rfl).front <| .putField _ rfl
  have hcall : TypeState.call m .special ⟨o.superName, "<init>",
      JvmType.methodDescriptor o.baseParams .void, false⟩
      ⟨(constructorEntry o).locals, vs.reverse ++ [.uninitializedThis]⟩ = .ok _ :=
    TypeState.call_constructor rfl hsuper hvs rfl rfl
  exact Flows.straight hfront (List.forall_mem_nil _) <|
    .on ⟨hcall, List.forall_mem_nil _, List.forall_mem_nil _, List.forall_mem_nil _⟩ rfl <|
      Flows.straight hback (List.forall_mem_nil _) (Flows.ret (List.forall_mem_nil _))

/-- The constructor is one stretch. -/
theorem certificate_constructor (hb : o.bindings.WellNamed)
    (hparams : ∀ t ∈ o.baseParams, t.isReadableValue) (thisName : String)
    (hlocals : Boxing.LieAt (constructorEntry o).locals 2 o.baseParams) :
    Certificate ((constructor o).shape thisName) (constructorEntry o)
      ⟨Line.straight (constructorOps o), []⟩
      [⟨⟨none, constructorOps o⟩, constructorEntry o, []⟩] := by
  refine ⟨?_, List.nodup_nil, ?_, ⟨_, _, rfl, le_refl _, .nil _⟩, ?_, fun offset => ?_,
    List.forall_mem_nil _⟩
  · simp [Code.Block.linesOf, Code.Block.lines, Stretch.blocks]
  · simp [constructorOps]
  · simpa using TypeState.paired_entry (entry_constructor hb hparams thisName)
  · exact .cons (flows_constructor hparams hlocals offset _) (by simp) (.nil _)

/-- **Nothing is wrong with the constructor.** -/
theorem sound_constructor (hb : o.bindings.WellNamed)
    (hparams : ∀ t ∈ o.baseParams, t.isReadableValue) (thisName : String) :
    Sound ((constructor o).shape thisName) ⟨Line.straight (constructorOps o), []⟩ where
  program := by
    have hops : Code.Block.opsOf [⟨none, constructorOps o⟩] = constructorOps o := List.append_nil _
    have htargets : (constructorOps (L := Label) o).all fun op => op.targets.isEmpty := by
      have hpush : (Boxing.pushParams (L := Label) o.baseParams 2).all
          fun op => op.targets.isEmpty :=
        List.all_eq_true.2 fun op hop => List.isEmpty_iff.2 (Op.targets_of_isOrdinary
          (List.all_eq_true.1 (Boxing.all_pushParams o.baseParams 2) op hop))
      rw [constructorOps, List.all_append, List.all_append, hpush]
      rfl
    have hlines : Line.straight (constructorOps o) =
        Code.Block.linesOf [⟨none, constructorOps o⟩] := by
      simp [Code.Block.linesOf, Code.Block.lines]
    refine Code.Block.exists_resolve hlines List.nodup_nil ?_ ?_ (List.forall_mem_nil _)
    · simp [constructorOps]
    · intro op hop target htarget
      rw [hops] at hop
      rw [List.isEmpty_iff.1 (List.all_eq_true.1 htargets op hop)] at htarget
      exact absurd htarget List.not_mem_nil
  writable op hop := Op.writable_of_isRegular (List.all_eq_true.1 (all_constructorBody o) op hop)
  entry := ⟨_, entry_constructor hb hparams thisName⟩
  certificate p l e hl he := by
    cases he.symm.trans (entry_constructor hb hparams thisName)
    have hweight := hl.weightOf_le
    have hvalues : ∀ t ∈ o.baseParams, t ≠ .void := fun t ht =>
      of_decide_eq_true (Bool.and_eq_true_iff.1 (hparams t ht)).1
    rw [Body.ops, Body.opsOf_straight, constructorOps, Op.weightOf_append, Op.weightOf_append]
      at hweight
    have hbound := Boxing.bound_of_pushParams hvalues (le_refl 2)
      (((Nat.le_add_left _ _).trans (Nat.le_add_right _ _)).trans hweight)
    exact ⟨_, certificate_constructor hb hparams thisName (lieAt_constructorEntry hbound)⟩

end Initializer

end Proxy

end ProxyForge
