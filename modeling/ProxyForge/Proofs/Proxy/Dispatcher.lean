import ProxyForge.Proofs.Plan.Members
import ProxyForge.Proofs.Proxy.Initializer
import ProxyForge.Proxy.Dispatcher
/-!
# The dispatcher is accepted

There is nothing wrong with the code of `dispatch` (`Dispatcher.sound_dispatch`), however many
members there are, and with that of a helper (`Dispatcher.sound_helper`). Every place of `dispatch`
knows what its start knows. A helper keeps the object whose monitor it holds in a local of its own
until the monitor is released, and a handler watches it there.
-/

namespace ProxyForge

namespace Proxy

/-- **A member whose types can be read back.** It is named like a constructor at most if its
implementation is reached through a helper. -/
structure Planned.Typed (p : Planned) : Prop where
  params : ∀ t ∈ p.signature.params, t.isReadableValue
  result : p.signature.result.isReadable
  name : p.origin ≠ .interface → p.signature.name ≠ Code.constructorName

namespace Planned

variable {p : Planned}

theorem Typed.params_ne_void (h : p.Typed) : ∀ t ∈ p.signature.params, t ≠ .void := fun t ht =>
  of_decide_eq_true (Bool.and_eq_true_iff.1 (h.params t ht)).1

theorem Typed.descriptor (h : p.Typed) : JvmType.ofMethodDescriptor p.signature.descriptor =
    .ok (p.signature.params, p.signature.result) :=
  JvmType.ofMethodDescriptor_methodDescriptor h.params h.result

/-- A helper is not named like a constructor. -/
theorem ne_constructorName (p : Planned) :
    "invokeTarget" ++ toString p.slot ≠ Code.constructorName := by
  intro h
  have hlist := congrArg (fun s => s.toList.head?) h
  simp only [String.toList_append] at hlist
  exact absurd hlist (by simp [Code.constructorName])

end Planned

namespace Dispatcher

open Code (Op Kind Label Line Body Block MethodHeader SlotType Straight TypeState Stretch
  Certificate Handler)
open Code.ClassDraft (Sound)
open Code.Stretch (Flows Linked Accepts Entered EnteredFrom)
open Boxing (call)

variable {m : MethodHeader} {locals stack : List SlotType} {o : Outline} {p : Planned}
  {offset : Nat → Nat} {ss : List Stretch} {i : Nat}

theorem parameterSlots_anyObject :
    TypeState.parameterSlots .anyObject = [.object Code.objectClass] := by
  cbv

theorem parameterSlots_array :
    TypeState.parameterSlots (.array .anyObject) = [Boxing.objectArray] := by
  cbv

theorem parse_helperDescriptor : JvmType.ofMethodDescriptor helperDescriptor =
    .ok ([.anyObject, .array .anyObject], .anyObject) :=
  JvmType.ofMethodDescriptor_of_eq (by cbv) (by cbv) (by cbv)

/-! ## Reaching a member -/

/-- The code for a member of an interface calls its helper. -/
theorem reach_interface {L : Type} (o : Outline) (horigin : p.origin = .interface) :
    reach (L := L) o p = [.load .reference 0, .load .reference 1, .load .reference 3,
      .invoke .special (helperMethod o.thisName p)] ++ [.ret (some .reference)] := by
  unfold reach
  rw [p.targetMethod_eq, if_pos horigin]
  rfl

/-- The code for any other member calls the superclass's method. -/
theorem reach_inherited {L : Type} (o : Outline) (horigin : p.origin ≠ .interface) :
    reach (L := L) o p = .load .reference 0 :: Boxing.unpackParams p.signature.params 3 ++
      [call .special o.superName p.signature.name p.signature.descriptor] ++
      Boxing.boxResult p.signature.result ++ [.ret (some .reference)] := by
  unfold reach
  rw [p.targetMethod_eq, if_neg horigin]

/-- The locals of `dispatch`: an instance, a receiver, a member and arguments. -/
structure Serves (locals : List SlotType) : Prop where
  self : ∃ v, locals[0]? = some v ∧ v.fits .reference
  receiver : ∃ v, locals[1]? = some v ∧ v.fits .reference
  member : ∃ v, locals[2]? = some v ∧ v.fits .reference
  arguments : locals[3]? = some Boxing.objectArray

/-- A member of an interface is reached through its helper. -/
theorem straight_helperCall (hlocals : Serves locals) : Straight m locals []
    [.load .reference 0, .load .reference 1, .load .reference 3,
      .invoke .special (helperMethod o.thisName p)]
    [.object Code.objectClass] := by
  obtain ⟨self, hself, hselfFits⟩ := hlocals.self
  obtain ⟨receiver, hreceiver, hreceiverFits⟩ := hlocals.receiver
  have hcall : Straight m locals [Boxing.objectArray, receiver, self]
      [.invoke .special (helperMethod o.thisName p)]
      (SlotType.ofResult .anyObject ++ []) :=
    Straight.callOn .special (by decide) (fun _ => p.ne_constructorName) parse_helperDescriptor
      (.cons (SlotType.passes_reference rfl hreceiverFits)
        (.cons (SlotType.passes_reference rfl Boxing.fits_objectArray) .nil)) hselfFits
  rw [Boxing.ofResult_anyObject] at hcall
  exact (Straight.load hself hselfFits).front <|
    (Straight.load hreceiver hreceiverFits).front <|
      (Straight.load hlocals.arguments Boxing.fits_objectArray).front hcall

/-- Any other member is called on the superclass, and its result is boxed. -/
theorem straight_superCall (hp : p.Typed) (horigin : p.origin ≠ .interface)
    (hlocals : Serves locals) : ∃ r, r.fits .reference ∧ Straight m locals []
      (.load .reference 0 :: Boxing.unpackParams p.signature.params 3 ++
        [call .special o.superName p.signature.name p.signature.descriptor] ++
        Boxing.boxResult p.signature.result) [r] := by
  obtain ⟨self, hself, hselfFits⟩ := hlocals.self
  obtain ⟨vs, hvs, hunpack⟩ := Boxing.straight_unpackParams m hp.params_ne_void 3 hlocals.arguments
  obtain ⟨r, hr, hbox⟩ :=
    Boxing.straight_boxResult m locals p.signature.result
  have hcall : Straight m locals (vs.reverse ++ [self])
      [call .special o.superName p.signature.name p.signature.descriptor]
      (SlotType.ofResult p.signature.result ++ []) :=
    Straight.callOn .special (by decide) (fun _ => hp.name horigin) hp.descriptor hvs hselfFits
  exact ⟨r, hr, (((Straight.load hself hselfFits).front (hunpack _)).append hcall).append (hbox [])⟩

/-- **A member is reached**, and its result is returned as an object. -/
theorem flows_reach (hp : p.Typed) (hlocals : Serves locals) :
    Flows m offset ss [] i ⟨locals, []⟩ (reach o p) none := by
  by_cases horigin : p.origin = .interface
  · rw [reach_interface o horigin]
    exact Flows.straight (straight_helperCall hlocals) (List.forall_mem_nil _)
      (Flows.retValue rfl (List.forall_mem_nil _))
  · rw [reach_inherited o horigin]
    obtain ⟨r, hr, hcall⟩ := straight_superCall (m := m) (o := o) hp horigin hlocals
    exact Flows.straight hcall (List.forall_mem_nil _) (Flows.retValue hr (List.forall_mem_nil _))

/-- The code for a member jumps nowhere. -/
theorem all_reach (o : Outline) (p : Planned) :
    (reach (L := Label) o p).all (Op.isRegular (some .reference)) := by
  unfold reach
  split
  · rfl
  · rw [List.all_append, List.all_append, List.all_append, List.all_cons,
      Op.all_isRegular (Boxing.all_unpackParams _ _), Op.all_isRegular (Boxing.all_boxResult _)]
    rfl

/-! ## Dispatch -/

/-- What is known of the locals of `dispatch`, in an instance of a class. -/
def dispatchEntry (o : Outline) (thisName : String) : TypeState :=
  ⟨[.object thisName, .object Code.objectClass, .object o.bindings.memberDescriptor,
    Boxing.objectArray], []⟩

theorem serves_dispatchEntry (o : Outline) (thisName : String) :
    Serves (dispatchEntry o thisName).locals :=
  ⟨⟨_, rfl, rfl⟩, ⟨_, rfl, rfl⟩, ⟨_, rfl, rfl⟩, rfl⟩

/-- The cases of the switch. -/
def switchCases (o : Outline) : List (Int32 × Label) :=
  (byId o.plan.members).map fun p => (p.id, memberLabel p)

/-- The switch. -/
def switchOp (o : Outline) : Op Label :=
  .lookupSwitch unknownLabel (switchCases o)

/-- The block that reaches a member. -/
def memberBlock (o : Outline) (p : Planned) : Block :=
  ⟨some (memberLabel p), reach o p⟩

/-- The block for an id of no member. -/
def unknownBlock : Block :=
  ⟨some unknownLabel, Op.throwNew "java/lang/IllegalArgumentException" "unknown dispatch id"⟩

/-- The block with the switch. -/
def switchBlock (o : Outline) : Block :=
  ⟨none, [.load .reference 2, call .virtual o.bindings.memberDescriptor "dispatchId" "()I",
    switchOp o]⟩

theorem switchBlock_ops (o : Outline) : (switchBlock o).ops =
    [.load .reference 2, call .virtual o.bindings.memberDescriptor "dispatchId" "()I"] ++
      [switchOp o] :=
  rfl

/-- The blocks to which the switch leads. -/
def servingBlocks (o : Outline) : List Block :=
  (byId o.plan.members).map (memberBlock o) ++ [unknownBlock]

theorem dispatchBody_lines (o : Outline) :
    (dispatchBody o).lines = Block.linesOf (switchBlock o :: servingBlocks o) := by
  simp [dispatchBody, Block.linesOf, Block.lines, switchBlock, servingBlocks, memberBlock,
    unknownBlock, switchOp, switchCases, List.flatMap_map]

/-- Sorting keeps what members are told apart by. -/
theorem nodup_map_byId {α : Type} {f : Planned → α} {members : List Planned}
    (h : (members.map f).Nodup) : ((byId members).map f).Nodup :=
  ((List.mergeSort_perm members _).map f).nodup_iff.2 h

theorem mem_byId {members : List Planned} : p ∈ byId members ↔ p ∈ members :=
  (List.mergeSort_perm members _).mem_iff

theorem memberLabel_injective {p q : Planned} (h : memberLabel p = memberLabel q) :
    p.slot = q.slot :=
  UInt16.toNat_inj.1 (Nat.succ_injective h)

theorem labelsOf_blocks (o : Outline) : Block.labelsOf (switchBlock o :: servingBlocks o) =
    (byId o.plan.members).map memberLabel ++ [unknownLabel] := by
  change Block.labelsOf (_ ++ _) = _
  rw [Block.labelsOf_append, Block.labelsOf, List.filterMap_map]
  have hmembers : (byId o.plan.members).filterMap (Block.label ∘ memberBlock o) =
      (byId o.plan.members).map memberLabel := congrFun List.filterMap_eq_map _
  rw [hmembers]
  rfl

theorem nodup_labelsOf (h : Plan.Numbered o.plan.members) :
    (Block.labelsOf (switchBlock o :: servingBlocks o)).Nodup := by
  rw [labelsOf_blocks]
  refine List.nodup_append.2 ⟨?_, List.nodup_singleton _, ?_⟩
  · have hslots := nodup_map_byId h.slots
    rw [List.Nodup, List.pairwise_map] at hslots ⊢
    exact hslots.imp fun hne heq => hne (memberLabel_injective heq)
  · intro label hlabel
    obtain ⟨q, -, rfl⟩ := List.mem_map.1 hlabel
    intro label' hlabel'
    rw [List.mem_singleton.1 hlabel']
    exact Nat.succ_ne_zero _

/-- The stretches of `dispatch`: all of them know the same. -/
def dispatchStretches (o : Outline) (e : TypeState) : List Stretch :=
  (switchBlock o :: servingBlocks o).map (⟨·, e, []⟩)

theorem blocks_dispatchStretches (o : Outline) (e : TypeState) :
    Stretch.blocks (dispatchStretches o e) = switchBlock o :: servingBlocks o := by
  unfold Stretch.blocks dispatchStretches
  rw [List.map_map]
  exact List.map_id _

theorem accepts_of_mem {e : TypeState} {b : Block} {label : Label} (hb : b ∈ servingBlocks o)
    (hlabel : b.label = some label) : Accepts (dispatchStretches o e) label e :=
  ⟨_, List.mem_map_of_mem (List.mem_cons_of_mem _ hb), hlabel, le_refl _⟩

theorem memberBlock_mem (hp : p ∈ byId o.plan.members) : memberBlock o p ∈ servingBlocks o :=
  List.mem_append_left _ (List.mem_map_of_mem hp)

theorem unknownBlock_mem (o : Outline) : unknownBlock ∈ servingBlocks o :=
  List.mem_append_right _ List.mem_cons_self

/-- **The switch leads to members**, or to the place for an unknown id. -/
theorem flows_switch (hlocals : Serves locals) :
    Flows m offset (dispatchStretches o ⟨locals, []⟩) [] i ⟨locals, []⟩ (switchBlock o).ops
      none := by
  obtain ⟨v, hmember, hfits⟩ := hlocals.member
  have hid : JvmType.ofMethodDescriptor "()I" = .ok ([], .primitive .int) :=
    JvmType.ofMethodDescriptor_of_eq (by cbv) rfl rfl
  have hfront : Straight m locals [] [.load .reference 2,
      call .virtual o.bindings.memberDescriptor "dispatchId" "()I"] [.int] :=
    (Straight.load hmember hfits).front (Straight.callVirtual hid .nil hfits)
  refine Flows.straight hfront (List.forall_mem_nil _)
    (Flows.lookupSwitch ?_ ?_ (List.forall_mem_nil _))
  · exact accepts_of_mem (unknownBlock_mem o) rfl
  · intro c hc
    obtain ⟨q, hq, rfl⟩ := List.mem_map.1 hc
    exact accepts_of_mem (memberBlock_mem hq) rfl

/-- The constructor of an exception takes a message. -/
theorem parse_throwNew : JvmType.ofMethodDescriptor "(Ljava/lang/String;)V" =
    .ok ([.object "java.lang.String"], .void) :=
  JvmType.ofMethodDescriptor_of_eq (by cbv) (by cbv) rfl

/-- An error is thrown for an unknown id. -/
theorem flows_unknown : Flows m offset ss [] i ⟨locals, stack⟩ unknownBlock.ops none := by
  have hargs : ∀ u : SlotType, Straight m locals (u :: u :: stack)
      [.string "unknown dispatch id"]
      ([SlotType.object "java/lang/String"].reverse ++ u :: u :: stack) := fun _ => .string _
  exact Flows.throwNew hargs parse_throwNew (.cons (SlotType.passes_reference rfl rfl) .nil)

theorem flows_serving (hmembers : ∀ p ∈ o.plan.members, p.Typed) (hlocals : Serves locals)
    {b : Block} (hb : b ∈ servingBlocks o) :
    Flows m offset ss [] i ⟨locals, []⟩ b.ops none := by
  rcases List.mem_append.1 hb with hb | hb
  · obtain ⟨q, hq, rfl⟩ := List.mem_map.1 hb
    exact flows_reach (hmembers q (mem_byId.1 hq)) hlocals
  · rw [List.mem_singleton.1 hb]
    exact flows_unknown

/-- Every place of `dispatch` is one to which the switch leads. -/
theorem exists_target {b : Block} (hb : b ∈ servingBlocks o) :
    ∃ label ∈ (switchOp o).targets, b.label = some label := by
  rcases List.mem_append.1 hb with hb | hb
  · obtain ⟨q, hq, rfl⟩ := List.mem_map.1 hb
    refine ⟨memberLabel q, List.mem_cons_of_mem _ ?_, rfl⟩
    exact List.mem_map.2 ⟨(q.id, memberLabel q), List.mem_map.2 ⟨q, hq, rfl⟩, rfl⟩
  · rw [List.mem_singleton.1 hb]
    exact ⟨unknownLabel, List.mem_cons_self, rfl⟩

theorem reach_nonempty (o : Outline) (p : Planned) : reach (L := Label) o p ≠ [] := by
  simp [reach]

theorem serving_nonempty {b : Block} (hb : b ∈ servingBlocks o) : b.ops ≠ [] := by
  rcases List.mem_append.1 hb with hb | hb
  · obtain ⟨q, -, rfl⟩ := List.mem_map.1 hb
    exact reach_nonempty o q
  · rw [List.mem_singleton.1 hb]
    exact List.cons_ne_nil _ _

theorem certificate_dispatch (hplan : Plan.Numbered o.plan.members)
    (hmembers : ∀ p ∈ o.plan.members, p.Typed) {e : TypeState} (he : e = ⟨locals, []⟩)
    (hlocals : Serves locals) (hpaired : e.Paired) :
    Certificate m e (dispatchBody o) (dispatchStretches o e) := by
  subst he
  have hflows : ∀ b ∈ switchBlock o :: servingBlocks o, ∀ offset i,
      Flows m offset (dispatchStretches o ⟨locals, []⟩) [] i ⟨locals, []⟩ b.ops none := by
    intro b hb offset i
    rcases List.mem_cons.1 hb with rfl | hb
    · exact flows_switch hlocals
    · exact flows_serving hmembers hlocals hb
  refine ⟨?_, ?_, fun s hs => ?_, ⟨_, _, rfl, le_refl _, .of_forall fun s hs pre hpre => ?_⟩,
    fun s hs => ?_, fun offset => .of_ends fun s hs i => ?_,
    List.forall_mem_nil _⟩
  · rw [blocks_dispatchStretches]
    exact dispatchBody_lines o
  · rw [blocks_dispatchStretches]
    exact nodup_labelsOf hplan
  · obtain ⟨b, hb, rfl⟩ := List.mem_map.1 hs
    rcases List.mem_cons.1 hb with rfl | hb
    · exact List.cons_ne_nil _ _
    · exact serving_nonempty hb
  · obtain ⟨b, hb, rfl⟩ := List.mem_map.1 hs
    obtain ⟨label, htarget, hlabel⟩ := exists_target hb
    refine .jump _ (hpre List.mem_cons_self) (switchOp o) ?_ label htarget hlabel
    exact List.mem_of_getElem? (i := 2) rfl
  · obtain ⟨b, -, rfl⟩ := List.mem_map.1 hs
    exact hpaired
  · obtain ⟨b, hb, rfl⟩ := List.mem_map.1 hs
    exact hflows b hb offset i

/-- **The instructions of `dispatch`** are regular, but for the switch. -/
theorem isRegular_of_mem {op : Op Label} (h : op ∈ (dispatchBody o).ops) :
    op = switchOp o ∨ op.isRegular (some .reference) := by
  rw [Block.ops_eq (dispatchBody_lines o), Block.opsOf_cons, List.mem_append] at h
  rcases h with h | h
  · simp only [switchBlock, List.mem_cons, List.not_mem_nil, or_false] at h
    rcases h with rfl | rfl | rfl
    · exact .inr rfl
    · exact .inr rfl
    · exact .inl rfl
  · right
    obtain ⟨b, hb, hop⟩ := List.mem_flatMap.1 h
    rcases List.mem_append.1 hb with hb | hb
    · obtain ⟨q, -, rfl⟩ := List.mem_map.1 hb
      exact List.all_eq_true.1 (all_reach o q) op hop
    · rw [List.mem_singleton.1 hb] at hop
      have hall : unknownBlock.ops.all (Op.isRegular (some .reference)) := rfl
      exact List.all_eq_true.1 hall op hop

/-- **`dispatch` returns objects.** -/
theorem returns_dispatch (o : Outline) : (dispatchBody o).Returns (some .reference) := by
  intro kind hop
  rcases isRegular_of_mem hop with h | h
  · cases h
  · exact of_decide_eq_true h

theorem writable_dispatch (h : Plan.Numbered o.plan.members) :
    ∀ op ∈ (dispatchBody o).ops, op.Writable := by
  intro op hop
  rcases isRegular_of_mem hop with rfl | hregular
  · have hids := nodup_map_byId h.ids
    change ((switchCases o).map (·.1)).Nodup
    rw [switchCases, List.map_map]
    exact hids
  · exact Op.writable_of_isRegular hregular

theorem entry_dispatch (hb : o.bindings.WellNamed) (thisName : String) :
    TypeState.entry ((dispatch o).shape thisName) = .ok (dispatchEntry o thisName) := by
  have hinstance : Access.has (dispatch o).access Access.isStatic = false := by
    change Access.has (Access.isPublic ||| Access.isFinal) Access.isStatic = false
    decide
  obtain ⟨v, hreceiver, -, -, hname⟩ :=
    TypeState.exists_receiver ((Code.MethodDraft.isStatic_shape thisName _).trans hinstance)
  have hentry := TypeState.entry_of_descriptor (m := (dispatch o).shape thisName)
    hb.callDescriptor
  have hordinary : ((dispatch o).shape thisName).name ≠ Code.constructorName := by
    change "dispatch" ≠ "<init>"
    decide
  have hmember : TypeState.parameterSlots (.object (Name.toBinary o.bindings.memberDescriptor)) =
      [.object o.bindings.memberDescriptor] :=
    congrArg (fun name => [SlotType.object name])
      (Name.toInternal_toBinary_of_isInternal hb.memberDescriptor)
  rw [hreceiver, hname hordinary, List.flatMap_cons, List.flatMap_cons, List.flatMap_cons,
    parameterSlots_anyObject, parameterSlots_array, hmember] at hentry
  exact hentry

/-- **Nothing is wrong with `dispatch`.** -/
theorem sound_dispatch (hb : o.bindings.WellNamed) (hplan : Plan.Numbered o.plan.members)
    (hmembers : ∀ p ∈ o.plan.members, p.Typed) (thisName : String) :
    Sound ((dispatch o).shape thisName) (dispatchBody o) :=
  .of_certificate (entry_dispatch hb thisName)
    (certificate_dispatch hplan hmembers rfl (serves_dispatchEntry o thisName)
      (TypeState.paired_entry (entry_dispatch hb thisName)))
    (writable_dispatch hplan)

/-! ## Helpers -/

theorem isInternal_methodHandle : Name.isInternal Outline.methodHandle := by
  cbv

theorem parse_lookup : JvmType.ofMethodDescriptor ("()" ++ described lookupClass) =
    .ok ([], .object (Name.toBinary lookupClass)) :=
  JvmType.ofMethodDescriptor_of_eq (by cbv) rfl (by cbv)

theorem parse_methodType : JvmType.ofMethodDescriptor ("(" ++ described Boxing.classClass ++ "[" ++
    described Boxing.classClass ++ ")" ++ described methodType) =
      .ok ([.object "java.lang.Class", .array (.object "java.lang.Class")],
        .object (Name.toBinary methodType)) :=
  JvmType.ofMethodDescriptor_of_eq (by cbv) (by cbv) (by cbv)

theorem parse_findVirtual : JvmType.ofMethodDescriptor ("(" ++ described Boxing.classClass ++
    "Ljava/lang/String;" ++ described methodType ++ ")" ++ described Outline.methodHandle) =
      .ok ([.object "java.lang.Class", .object "java.lang.String",
        .object (Name.toBinary methodType)], .object (Name.toBinary Outline.methodHandle)) :=
  JvmType.ofMethodDescriptor_of_eq (by cbv) (by cbv) (by cbv)

theorem parse_bindTo : JvmType.ofMethodDescriptor ("(" ++ described Boxing.objectClass ++ ")" ++
    described Outline.methodHandle) =
      .ok ([.object "java.lang.Object"], .object (Name.toBinary Outline.methodHandle)) :=
  JvmType.ofMethodDescriptor_of_eq (by cbv) (by cbv) (by cbv)

/-- **The method of a member is found** and bound to the receiver. -/
theorem straight_bindTarget {receiver : SlotType} (hreceiver : locals[1]? = some receiver)
    (hfits : receiver.fits .reference) : Straight m locals stack (bindTarget p)
      (.object Outline.methodHandle :: stack) := by
  have hbound : Straight m locals
      (receiver :: SlotType.ofResult (.object (Name.toBinary Outline.methodHandle)) ++ stack)
      [call .virtual Outline.methodHandle "bindTo"
        ("(" ++ described Boxing.objectClass ++ ")" ++ described Outline.methodHandle)]
      (.object (Name.toInternal (Name.toBinary Outline.methodHandle)) :: stack) :=
    Straight.callVirtual parse_bindTo (.cons (SlotType.passes_reference rfl hfits) .nil) rfl
  rw [Name.toInternal_toBinary_of_isInternal isInternal_methodHandle] at hbound
  refine Straight.append (Straight.append (Straight.append (Straight.append
    (Straight.callStatic parse_lookup .nil) (Initializer.straight_pushLoadedClass _))
    ((Straight.string _).front (Boxing.straight_pushClass _))) (Boxing.straight_pushClasses _)) ?_
  refine Straight.front (Straight.callStatic parse_methodType
    (.cons (SlotType.passes_reference rfl rfl) (.cons (SlotType.passes_reference rfl rfl) .nil))) ?_
  refine Straight.front (Straight.callVirtual parse_findVirtual
    (.cons (SlotType.passes_reference rfl rfl) (.cons (SlotType.passes_reference rfl rfl)
      (.cons (SlotType.passes_reference rfl rfl) .nil))) rfl) ?_
  exact (Straight.load hreceiver hfits).front hbound

/-- What is known of the locals of a helper: an instance, a receiver and arguments. -/
def helperLocals (thisName : String) : List SlotType :=
  [.object thisName, .object Code.objectClass, Boxing.objectArray]

/-- Behind them is the object whose monitor is held. -/
def lockedLocals (thisName : String) : List SlotType :=
  helperLocals thisName ++ [.object thisName]

/-- Behind that is an exception which waits. -/
def failedLocals (thisName : String) : List SlotType :=
  lockedLocals thisName ++ [.object Code.objectClass]

/-- The field with a call target is read. -/
theorem straight_target {field : Code.FieldRef} {thisName : String}
    (hfield : TypeState.fieldValue field = .ok (.object Outline.methodHandle))
    (hself : locals[0]? = some (.object thisName)) : Straight m locals stack
      [.load .reference 0, .getField field] (.object Outline.methodHandle :: stack) :=
  (Straight.load hself rfl).front (.getField rfl hfield)

/-- The first block: is there a target already? -/
def askBlock (field : Code.FieldRef) : Block :=
  ⟨none, [.load .reference 0, .getField field, .jump .ifNonNull readyLabel,
    .load .reference 0, .dup, .store .reference 3, .monitorEnter]⟩

/-- The block under the monitor. -/
def lockedBlock (p : Planned) (field : Code.FieldRef) : Block :=
  ⟨some lockedLabel, [.load .reference 0, .getField field, .jump .ifNonNull unlockLabel,
    .load .reference 0] ++ bindTarget p ++ [.putField field]⟩

/-- The block that calls the target. -/
def readyBlock (p : Planned) (field : Code.FieldRef) : Block :=
  ⟨some readyLabel, [.load .reference 0, .getField field] ++
    Boxing.unpackParams p.signature.params 2 ++
    [call .virtual Outline.methodHandle "invokeExact" p.signature.descriptor] ++
    Boxing.boxResult p.signature.result ++ [.ret (some .reference)]⟩

/-- The stretches of a helper. -/
def helperStretches (thisName : String) (p : Planned) (field : Code.FieldRef) : List Stretch :=
  [⟨askBlock field, ⟨helperLocals thisName, []⟩, []⟩,
    ⟨lockedBlock p field, ⟨lockedLocals thisName, []⟩, [failedLabel]⟩,
    ⟨⟨some unlockLabel, [.load .reference 3, .monitorExit]⟩, ⟨lockedLocals thisName, []⟩,
      [failedLabel]⟩,
    ⟨⟨some unlockedLabel, [.jump .always readyLabel]⟩, ⟨lockedLocals thisName, []⟩, []⟩,
    ⟨⟨some failedLabel, [.store .reference 4, .load .reference 3, .monitorExit]⟩,
      TypeState.raised ⟨lockedLocals thisName, []⟩, [failedLabel]⟩,
    ⟨⟨some releasedLabel, [.load .reference 4, .throw]⟩, ⟨failedLocals thisName, []⟩, []⟩,
    ⟨readyBlock p field, ⟨helperLocals thisName, []⟩, []⟩]

theorem helperBody_lines (thisName : String) (p : Planned) (field : Code.FieldRef) :
    (helperBody p field).lines =
      Block.linesOf (Stretch.blocks (helperStretches thisName p field)) := by
  simp [helperBody, Block.linesOf, Block.lines, Stretch.blocks, helperStretches, askBlock,
    lockedBlock, readyBlock]

variable {thisName : String} {field : Code.FieldRef}

/-- The places of a helper, with what is known there. -/
theorem accepts_helper : Accepts (helperStretches thisName p field) readyLabel
      ⟨helperLocals thisName, []⟩ ∧
    Accepts (helperStretches thisName p field) unlockLabel ⟨lockedLocals thisName, []⟩ ∧
    Accepts (helperStretches thisName p field) failedLabel
      (TypeState.raised ⟨lockedLocals thisName, []⟩) :=
  ⟨⟨_, List.mem_of_getElem? (i := 6) rfl, rfl, le_refl _⟩,
    ⟨_, List.mem_of_getElem? (i := 2) rfl, rfl, le_refl _⟩,
    ⟨_, List.mem_of_getElem? (i := 4) rfl, rfl, le_refl _⟩⟩

/-- The handler of a helper may be entered while the monitor is held. -/
theorem accepts_failed : ∀ label ∈ [failedLabel],
    Accepts (helperStretches thisName p field) label
      (TypeState.raised ⟨lockedLocals thisName, stack⟩) := by
  intro label hlabel
  rw [List.mem_singleton.1 hlabel]
  exact accepts_helper.2.2

/-- The target is asked for, and the monitor entered if there is none. -/
theorem flows_ask (hfield : TypeState.fieldValue field = .ok (.object Outline.methodHandle)) :
    Flows m offset (helperStretches thisName p field) [] i ⟨helperLocals thisName, []⟩
      (askBlock field).ops (some ⟨lockedLocals thisName, []⟩) := by
  have hself : (helperLocals thisName)[0]? = some (.object thisName) := rfl
  have hheld : Straight m (helperLocals thisName) [] [.load .reference 0, .dup]
      [.object thisName, .object thisName] :=
    (Straight.load hself rfl).front (.dup rfl)
  refine Flows.straight (straight_target hfield hself) (List.forall_mem_nil _)
    (Flows.ifNonNull rfl accepts_helper.1 (List.forall_mem_nil _) ?_)
  refine Flows.straight hheld (List.forall_mem_nil _)
    (Flows.store rfl (List.forall_mem_nil _) (List.forall_mem_nil _) ?_)
  exact Flows.of_straight (.monitorEnter rfl) (List.forall_mem_nil _)

/-- The target is found and kept, unless another thread was faster. -/
theorem flows_locked (hfield : TypeState.fieldValue field = .ok (.object Outline.methodHandle)) :
    Flows m offset (helperStretches thisName p field) [failedLabel] i
      ⟨lockedLocals thisName, []⟩ (lockedBlock p field).ops
      (some ⟨lockedLocals thisName, []⟩) := by
  have hself : (lockedLocals thisName)[0]? = some (.object thisName) := rfl
  have hreceiver : (lockedLocals thisName)[1]? = some (.object Code.objectClass) := rfl
  have hbound : Straight m (lockedLocals thisName) []
      ([.load .reference 0] ++ bindTarget p ++ [.putField field]) [] :=
    ((Straight.load hself rfl).append (straight_bindTarget hreceiver rfl)).append
      (.putField field rfl)
  change Flows _ _ _ _ _ _ ([.load .reference 0, .getField field] ++
    .jump .ifNonNull unlockLabel :: ([.load .reference 0] ++ bindTarget p ++ [.putField field])) _
  exact Flows.straight (straight_target hfield hself) accepts_failed
    (Flows.ifNonNull rfl accepts_helper.2.1 accepts_failed
      (Flows.of_straight hbound accepts_failed))

/-- The monitor is released. -/
theorem straight_release (locals' : List SlotType) :
    Straight m (lockedLocals thisName ++ locals') stack
      [.load .reference 3, .monitorExit] stack :=
  (Straight.load (v := .object thisName) rfl rfl).front (.monitorExit rfl)

/-- The monitor is released before an exception is passed on. -/
theorem flows_failed : Flows m offset (helperStretches thisName p field) [failedLabel] i
    (TypeState.raised ⟨lockedLocals thisName, []⟩)
    [.store .reference 4, .load .reference 3, .monitorExit]
    (some ⟨failedLocals thisName, []⟩) := by
  -- what waits in the last local is not known to the handler
  have hfailed : ∀ stack, ∀ label ∈ [failedLabel],
      Accepts (helperStretches thisName p field) label
        (TypeState.raised ⟨failedLocals thisName, stack⟩) := by
    intro stack label hlabel
    have hlocked : Accepts (helperStretches thisName p field) label
        (TypeState.raised ⟨lockedLocals thisName, stack⟩) := accepts_failed label hlabel
    exact hlocked.mono (TypeState.append_le _ _ _)
  refine Flows.store rfl accepts_failed (hfailed []) ?_
  exact Flows.of_straight (straight_release _) (hfailed [])

/-- The exception is passed on. -/
theorem flows_released : Flows m offset ss [] i ⟨failedLocals thisName, []⟩
    [.load .reference 4, .throw] none := by
  have hwaiting : Straight m (failedLocals thisName) [] [.load .reference 4]
      [.object Code.objectClass] := .load rfl rfl
  exact Flows.straight hwaiting (List.forall_mem_nil _) (Flows.throw rfl (List.forall_mem_nil _))

/-- **The target is called** with the arguments, and its result is returned as an object. -/
theorem flows_ready (hfield : TypeState.fieldValue field = .ok (.object Outline.methodHandle))
    (hp : p.Typed) : Flows m offset ss [] i ⟨helperLocals thisName, []⟩
      (readyBlock p field).ops none := by
  have hself : (helperLocals thisName)[0]? = some (.object thisName) := rfl
  have harguments : (helperLocals thisName)[2]? = some Boxing.objectArray := rfl
  obtain ⟨vs, hvs, hunpack⟩ := Boxing.straight_unpackParams m hp.params_ne_void 2 harguments
  obtain ⟨r, hr, hbox⟩ := Boxing.straight_boxResult m (helperLocals thisName)
    p.signature.result
  have hcall : Straight m (helperLocals thisName) (vs.reverse ++ [.object Outline.methodHandle])
      [call .virtual Outline.methodHandle "invokeExact" p.signature.descriptor]
      (SlotType.ofResult p.signature.result ++ []) :=
    Straight.callVirtual hp.descriptor hvs rfl
  exact Flows.straight
    ((((straight_target hfield hself).append (hunpack _)).append hcall).append (hbox []))
    (List.forall_mem_nil _) (Flows.retValue hr (List.forall_mem_nil _))

theorem certificate_helper (hp : p.Typed)
    (hfield : TypeState.fieldValue field = .ok (.object Outline.methodHandle)) :
    Certificate m ⟨helperLocals thisName, []⟩ (helperBody p field)
      (helperStretches thisName p field) := by
  have hnodup : [lockedLabel, unlockLabel, unlockedLabel, failedLabel, releasedLabel,
      readyLabel].Nodup := by decide
  have hpaired : ∀ locals' ⊆ failedLocals thisName, (⟨locals', []⟩ : TypeState).Paired := by
    refine fun locals' hsub => .of_narrow (fun v hv => ?_) List.not_mem_nil
    have hmem := hsub hv
    simp only [failedLocals, lockedLocals, helperLocals, List.cons_append, List.nil_append,
      List.mem_cons, List.not_mem_nil, or_false] at hmem
    rcases hmem with rfl | rfl | rfl | rfl | rfl <;> rfl
  have hlocked := hpaired _ (List.subset_append_left (lockedLocals thisName) _)
  have hhelper := hpaired (helperLocals thisName)
    (List.Subset.trans (List.subset_append_left _ _) (List.subset_append_left _ _))
  refine ⟨helperBody_lines thisName p field, hnodup, ?_, ⟨_, _, rfl, le_refl _, ?_⟩, ?_,
    fun offset => ?_, ?_⟩
  · simp [helperStretches, askBlock, lockedBlock, readyBlock]
  · refine .cons (.passed _ rfl ⟨_, rfl, rfl⟩) <| .cons (.passed _ rfl ?_) <|
      .cons (.passed _ rfl ⟨_, rfl, rfl⟩) <| .cons ?_ <| .cons (.passed _ rfl ⟨_, rfl, rfl⟩) <|
        .cons ?_ <| .nil _
    · exact ⟨.putField field, List.getLast?_concat, rfl⟩
    · exact .raised _ List.mem_cons_self rfl _ (List.mem_of_getElem? (i := 1) rfl) rfl
    · refine .jump _ (List.mem_of_getElem? (i := 0) rfl) (.jump .ifNonNull readyLabel) ?_
        readyLabel List.mem_cons_self rfl
      exact List.mem_of_getElem? (i := 2) rfl
  · simp only [helperStretches, List.forall_mem_cons]
    exact ⟨hhelper, hlocked, hlocked, hlocked, hlocked.raised, hpaired _ (List.Subset.refl _),
      hhelper, List.forall_mem_nil _⟩
  · have hready : Accepts (helperStretches thisName p field) readyLabel
        ⟨lockedLocals thisName, []⟩ := accepts_helper.1.mono (TypeState.append_le _ _ _)
    have hnext : ∀ {t t' : TypeState} {s : Stretch} {rest : List Stretch},
        s.entry = t → some t = some t' → ∃ s' rest', s :: rest = s' :: rest' ∧ t' ≤ s'.entry := by
      intro t t' s rest hs ht
      cases ht
      exact ⟨s, rest, rfl, ge_of_eq hs⟩
    refine .cons (flows_ask hfield) (fun _ => hnext rfl) <|
      .cons (flows_locked hfield) (fun _ => hnext rfl) <|
      .cons (Flows.of_straight (straight_release []) accepts_failed)
        (fun _ => hnext rfl) <|
      .cons (Flows.goto hready (List.forall_mem_nil _)) (by simp) <|
      .cons flows_failed (fun _ => hnext rfl) <|
      .cons flows_released (by simp) <| .cons (flows_ready hfield hp) (by simp) <| .nil _
  · intro h hh
    simp only [helperBody, List.mem_cons, List.not_mem_nil, or_false] at hh
    rcases hh with rfl | rfl
    · refine ⟨[_], [_, _], _, rfl, ⟨_, _, rfl, rfl⟩, ⟨_, _, rfl, rfl⟩, fun s hs => ?_⟩
      simp only [List.mem_cons, List.not_mem_nil, or_false] at hs
      rcases hs with rfl | rfl <;> exact List.mem_cons_self
    · refine ⟨[_, _, _, _], [_], _, rfl, ⟨_, _, rfl, rfl⟩, ⟨_, _, rfl, rfl⟩, fun s hs => ?_⟩
      rw [List.mem_singleton.1 hs]
      exact List.mem_cons_self

theorem all_bindTarget (p : Planned) : (bindTarget (L := Label) p).all Op.isOrdinary := by
  unfold bindTarget
  have hresult : [.string p.signature.name,
      Boxing.pushClass (L := Label) p.signature.result].all Op.isOrdinary := by
    rw [List.all_cons, List.all_cons, Boxing.isOrdinary_pushClass]
    rfl
  rw [List.all_append, List.all_append, List.all_append, List.all_append,
    Boxing.all_pushClasses, hresult]
  rfl

/-- The instructions of a helper are regular. -/
theorem all_helperBody (p : Planned) (field : Code.FieldRef) :
    (helperBody p field).ops.all (Op.isRegular (some .reference)) := by
  rw [Block.ops_eq (helperBody_lines "" p field)]
  simp only [Stretch.blocks, helperStretches, List.map_cons, List.map_nil, Block.opsOf_cons,
    askBlock, lockedBlock, readyBlock, List.all_append, Op.all_isRegular (all_bindTarget p),
    Op.all_isRegular (Boxing.all_unpackParams p.signature.params 2),
    Op.all_isRegular (Boxing.all_boxResult p.signature.result)]
  rfl

/-- **What a helper is made of.** -/
theorem helper_eq_some {draft : Code.MethodDraft} (h : helper o p = some draft) :
    draft.access = Access.isPrivate ||| Access.isFinal ∧
      draft.name = (helperMethod o.thisName p).name ∧
      draft.descriptor = (helperMethod o.thisName p).descriptor ∧
      draft.body = some (helperBody p (handleField o.thisName p)) := by
  obtain ⟨name, hname, hrest⟩ := Option.bind_eq_some_iff.1 h
  obtain ⟨field, hfield, hdraft⟩ := Option.bind_eq_some_iff.1 hrest
  cases hdraft
  rw [p.targetMethod_eq] at hname
  rw [o.targetField_eq] at hfield
  by_cases horigin : p.origin = .interface
  · rw [if_pos horigin] at hname hfield
    cases hname
    cases hfield
    exact ⟨rfl, rfl, rfl, rfl⟩
  · rw [if_neg horigin] at hname
    cases hname

theorem entry_helper {draft : Code.MethodDraft} (h : helper o p = some draft)
    (thisName : String) :
    TypeState.entry (draft.shape thisName) = .ok ⟨helperLocals thisName, []⟩ := by
  obtain ⟨haccess, hdraft, hdescriptor, -⟩ := helper_eq_some h
  have hinstance : Access.has draft.access Access.isStatic = false := by
    rw [haccess]
    decide
  obtain ⟨v, hreceiver, -, -, hname⟩ :=
    TypeState.exists_receiver ((Code.MethodDraft.isStatic_shape thisName _).trans hinstance)
  have hparse : JvmType.ofMethodDescriptor (draft.shape thisName).descriptor =
      .ok ([.anyObject, .array .anyObject], .anyObject) := by
    change JvmType.ofMethodDescriptor draft.descriptor = _
    rw [hdescriptor]
    exact parse_helperDescriptor
  have hordinary : (draft.shape thisName).name ≠ Code.constructorName := by
    change draft.name ≠ _
    rw [hdraft]
    exact p.ne_constructorName
  have hentry := TypeState.entry_of_descriptor hparse
  rw [hreceiver, hname hordinary, List.flatMap_cons, List.flatMap_cons, parameterSlots_anyObject,
    parameterSlots_array] at hentry
  exact hentry

/-- **A helper returns objects.** -/
theorem returns_helper (p : Planned) (field : Code.FieldRef) :
    (helperBody p field).Returns (some .reference) :=
  Body.returns_of_all (all_helperBody p field)

/-- **Nothing is wrong with a helper.** -/
theorem sound_helper (hp : p.Typed) {draft : Code.MethodDraft} (h : helper o p = some draft)
    {body : Body} (hbody : draft.body = some body) (thisName : String) :
    Sound (draft.shape thisName) body := by
  obtain ⟨-, -, -, hdraft⟩ := helper_eq_some h
  cases hbody.symm.trans hdraft
  have hfield : TypeState.fieldValue (handleField o.thisName p) =
      .ok (.object Outline.methodHandle) := fieldValue_classDescriptor isInternal_methodHandle
  refine .of_certificate (entry_helper h thisName) (certificate_helper hp hfield) ?_
  exact fun op hop =>
    Op.writable_of_isRegular (List.all_eq_true.1 (all_helperBody p _) op hop)

end Dispatcher

end Proxy

end ProxyForge
