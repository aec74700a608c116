import ProxyForge.Proofs.Proxy.Initializer
import ProxyForge.Proxy.Forwarder
/-!
# Forwarders are accepted

There is nothing wrong with the code of a forwarder (`Forwarder.sound_method`), whatever the
parameters and the result of its member are, and its returns are of the kind of the result
(`Forwarder.returns_body`). The call of the interceptor is watched by two handlers; the answer
starts with one object on the stack, and so does each handler.
-/

namespace ProxyForge

namespace Proxy

namespace Forwarder

open Code (Op Kind Label Line Body Block MethodHeader SlotType Straight TypeState Stretch
  Certificate Handler)
open Code.ClassDraft (Sound)
open Code.Stretch (Flows Linked Accepts Entered EnteredFrom)
open Boxing (call)

variable {m : MethodHeader} {locals stack : List SlotType} {o : Outline} {p : Planned}
  {offset : Nat → Nat} {ss : List Stretch} {i : Nat} {t : JvmType}

/-! ## The call of the interceptor -/

/-- **The interceptor is asked**, and its answer lies on the stack. -/
theorem straight_intercept (hb : o.bindings.WellNamed)
    (hparams : ∀ t ∈ p.signature.params, t ≠ .void) {v : SlotType} (hv : v.fits .reference)
    (hself : locals[0]? = some v) (hlocals : Boxing.LieAt locals 1 p.signature.params) :
    Straight m locals [] (intercept o p) [.object Code.objectClass] := by
  have hmember : (SlotType.object o.bindings.memberDescriptor).fits .reference := rfl
  have hinterceptor : (SlotType.object o.bindings.interceptor).fits .reference := rfl
  have hpasses : List.Forall₂ SlotType.passes
      [v, .object o.bindings.memberDescriptor, Boxing.objectArray]
      [.anyObject, .object (Name.toBinary o.bindings.memberDescriptor), .array .anyObject] :=
    .cons (SlotType.passes_reference rfl hv) (.cons (SlotType.passes_reference rfl hmember)
      (.cons (SlotType.passes_reference rfl Boxing.fits_objectArray) .nil))
  have hcall : Straight m locals
      [Boxing.objectArray, .object o.bindings.memberDescriptor, v,
        .object o.bindings.interceptor]
      [.invoke .interface (intercepting o.bindings)] (SlotType.ofResult .anyObject ++ []) :=
    Straight.callOn .interface (by decide) (fun h => absurd h (by decide)) hb.callDescriptor hpasses
      hinterceptor
  rw [Boxing.ofResult_anyObject] at hcall
  refine Straight.append (Straight.append ?_ (Boxing.straight_packParams hparams hlocals)) hcall
  exact (Straight.load hself hv).front <|
    (Straight.getField hv (fieldValue_classDescriptor hb.interceptor)).front <|
      (Straight.load hself hv).front <|
        .getStatic (fieldValue_classDescriptor hb.memberDescriptor)

/-! ## The answer -/

/-- The first instructions of the answer. -/
def answerOps (t : JvmType) : List (Op Label) :=
  match Kind.ofType t with
  | none => [.pop, .ret none]
  | some .reference => Boxing.unboxValue t ++ [.ret (some .reference)]
  | some _ => [.dup, .jump .ifNonNull presentLabel] ++
      Op.throwNew "java/lang/NullPointerException" "missing value"

/-- What is done with an object where a primitive is due. -/
def presentOps (t : JvmType) : List (List (Op Label)) :=
  match Kind.ofType t with
  | none => []
  | some .reference => []
  | some kind => [Boxing.unboxValue t ++ [.ret (some kind)]]

/-- The blocks behind the first one of the answer. -/
def presentBlocks (t : JvmType) : List Block :=
  (presentOps t).map fun ops => ⟨some presentLabel, ops⟩

theorem answer_lines (t : JvmType) : .mark endLabel :: answer t =
    Block.linesOf (⟨some endLabel, answerOps t⟩ :: presentBlocks t) := by
  unfold answer answerOps presentBlocks presentOps
  cases Kind.ofType t with
  | none => rfl
  | some kind => cases kind <;> simp [Block.linesOf, Block.lines, Line.block, Line.straight]

theorem labelsOf_presentBlocks (t : JvmType) :
    Block.labelsOf (presentBlocks t) = [] ∨ Block.labelsOf (presentBlocks t) = [presentLabel] := by
  unfold presentBlocks presentOps
  cases Kind.ofType t with
  | none => exact .inl rfl
  | some kind =>
    cases kind with
    | reference => exact .inl rfl
    | _ => exact .inr rfl

/-- A value of the result's type is returned. -/
theorem flows_unbox {kind : Kind} (hkind : Kind.ofType t = some kind) :
    Flows m offset ss [] i ⟨locals, [.object Code.objectClass]⟩
      (Boxing.unboxValue t ++ [.ret (some kind)]) none := by
  have ht : t ≠ .void := by
    rintro rfl
    cases hkind
  obtain ⟨v, ⟨kind', hkind', hfits⟩, hunbox⟩ :=
    Boxing.straight_unboxValue m locals ht Boxing.fits_object
  cases hkind.symm.trans hkind'
  exact Flows.straight (hunbox []) (List.forall_mem_nil _)
    (Flows.retValue hfits (List.forall_mem_nil _))

/-- An object is returned as a primitive, or an error is thrown where there is none. -/
theorem flows_missing
    (hpresent : Accepts ss presentLabel ⟨locals, [.object Code.objectClass]⟩) :
    Flows m offset ss [] i ⟨locals, [.object Code.objectClass]⟩
      ([.dup] ++ .jump .ifNonNull presentLabel ::
        Op.throwNew "java/lang/NullPointerException" "missing value") none := by
  have hinit : JvmType.ofMethodDescriptor "(Ljava/lang/String;)V" =
      .ok ([.object "java.lang.String"], .void) :=
    JvmType.ofMethodDescriptor_of_eq (by decide +kernel) (by decide +kernel) rfl
  have hargs : ∀ u : SlotType, Straight m locals (u :: u :: [.object Code.objectClass])
      [.string "missing value"]
      ([SlotType.object "java/lang/String"].reverse ++ u :: u :: [.object Code.objectClass]) :=
    fun _ => .string _
  exact Flows.straight (Straight.dup rfl) (List.forall_mem_nil _)
    (Flows.ifNonNull rfl hpresent (List.forall_mem_nil _)
      (Flows.throwNew hargs hinit (.cons (SlotType.passes_reference rfl rfl) .nil)))

/-- **The answer is returned**, or an error is thrown where it is missing. -/
theorem flows_answer (hpresent : presentOps t ≠ [] →
      Accepts ss presentLabel ⟨locals, [.object Code.objectClass]⟩) :
    Flows m offset ss [] i ⟨locals, [.object Code.objectClass]⟩ (answerOps t) none := by
  unfold answerOps
  unfold presentOps at hpresent
  cases hkind : Kind.ofType t with
  | none =>
    exact Flows.straight (Straight.pop rfl) (List.forall_mem_nil _)
      (Flows.ret (List.forall_mem_nil _))
  | some kind =>
    rw [hkind] at hpresent
    cases kind with
    | reference => exact flows_unbox hkind
    | _ => exact flows_missing (hpresent (List.cons_ne_nil _ _))

theorem flows_present {ops : List (Op Label)} (h : ops ∈ presentOps t) :
    Flows m offset ss [] i ⟨locals, [.object Code.objectClass]⟩ ops none := by
  unfold presentOps at h
  split at h
  · exact absurd h List.not_mem_nil
  · exact absurd h List.not_mem_nil
  · rename_i hkind
    rw [List.mem_singleton.1 h]
    exact flows_unbox hkind

/-! ## The handlers -/

/-- **What is not declared is wrapped.** -/
theorem flows_wrap {cause : UInt16} : Flows m offset ss [] i
    ⟨locals, [.object Code.objectClass]⟩ (wrap cause) none := by
  have hinit : JvmType.ofMethodDescriptor "(Ljava/lang/Throwable;)V" =
      .ok ([.object "java.lang.Throwable"], .void) :=
    JvmType.ofMethodDescriptor_of_eq (by decide +kernel) (by decide +kernel) rfl
  have hargs : ∀ u : SlotType, Straight m
      (TypeState.storeLocal locals cause.toNat .reference (.object Code.objectClass))
      (u :: u :: []) [.load .reference cause]
      ([SlotType.object Code.objectClass].reverse ++ u :: u :: []) :=
    fun _ => .load (TypeState.getElem?_storeLocal rfl) rfl
  exact Flows.store rfl (List.forall_mem_nil _) (List.forall_mem_nil _)
    (Flows.throwNew hargs hinit (.cons (SlotType.passes_reference rfl rfl) .nil))

/-! ## The body -/

/-- The blocks of the handlers. -/
def handlerBlocks (p : Planned) : List Block :=
  [⟨some rethrowLabel, [.throw]⟩, ⟨some wrapLabel, wrap (causeSlot p)⟩]

/-- The blocks behind the first one: all of them start with one object on the stack. -/
def blocksBehind (p : Planned) : List Block :=
  ⟨some endLabel, answerOps p.signature.result⟩ ::
    (presentBlocks p.signature.result ++ handlerBlocks p)

/-- The blocks of a forwarder. -/
def blocks (o : Outline) (p : Planned) : List Block :=
  ⟨some startLabel, intercept o p⟩ :: blocksBehind p

theorem body_lines (o : Outline) (p : Planned) : (body o p).lines = Block.linesOf (blocks o p) := by
  unfold body
  rw [answer_lines]
  simp [Block.linesOf, Block.lines, blocks, blocksBehind, handlerBlocks]

theorem labelsOf_blocks (o : Outline) (p : Planned) : Block.labelsOf (blocks o p) =
    startLabel :: endLabel :: (Block.labelsOf (presentBlocks p.signature.result) ++
      [rethrowLabel, wrapLabel]) := by
  rw [blocks, blocksBehind]
  change startLabel :: endLabel :: Block.labelsOf (_ ++ _) = _
  rw [Block.labelsOf_append]
  rfl

theorem nodup_labelsOf (o : Outline) (p : Planned) : (Block.labelsOf (blocks o p)).Nodup := by
  rw [labelsOf_blocks]
  rcases labelsOf_presentBlocks p.signature.result with h | h
  · rw [h]
    decide
  · rw [h]
    decide

theorem answerOps_nonempty (t : JvmType) : answerOps t ≠ [] := by
  unfold answerOps
  cases Kind.ofType t with
  | none => exact List.cons_ne_nil _ _
  | some kind => cases kind <;> simp

theorem presentOps_nonempty {ops : List (Op Label)} (h : ops ∈ presentOps t) : ops ≠ [] := by
  unfold presentOps at h
  split at h
  · exact absurd h List.not_mem_nil
  · exact absurd h List.not_mem_nil
  · rw [List.mem_singleton.1 h]
    simp

theorem blocks_nonempty (o : Outline) (p : Planned) : ∀ b ∈ blocks o p, b.ops ≠ [] := by
  simp only [blocks, blocksBehind, handlerBlocks, presentBlocks, List.forall_mem_cons,
    List.forall_mem_append, List.forall_mem_map]
  refine ⟨?_, answerOps_nonempty _, fun ops hops => presentOps_nonempty hops,
    List.cons_ne_nil _ _, List.cons_ne_nil _ _, List.forall_mem_nil _⟩
  simp [intercept]

/-! ## Its instructions -/

theorem all_unbox (kind : Option Kind) : (Boxing.unboxValue t ++ [Op.ret kind]).all
    (Op.isRegular (L := Label) kind) := by
  rw [List.all_append, Op.all_isRegular (Boxing.all_unboxValue t), Bool.true_and, List.all_cons,
    List.all_nil, Bool.and_true]
  exact decide_eq_true rfl

theorem all_answerOps (t : JvmType) :
    (answerOps t).all (Op.isRegular (Kind.ofType t)) := by
  unfold answerOps
  cases Kind.ofType t with
  | none => rfl
  | some kind =>
    cases kind with
    | reference => exact all_unbox _
    | _ => rfl

theorem all_presentOps {ops : List (Op Label)} (h : ops ∈ presentOps t) :
    ops.all (Op.isRegular (Kind.ofType t)) := by
  unfold presentOps at h
  split at h
  · exact absurd h List.not_mem_nil
  · exact absurd h List.not_mem_nil
  · rename_i hkind
    rw [List.mem_singleton.1 h, hkind]
    exact all_unbox _

/-- The call of the interceptor. -/
def interceptCall (o : Outline) : Op Label :=
  .invoke .interface (intercepting o.bindings)

theorem isOrdinary_of_mem_intercept {op : Op Label} (h : op ∈ intercept o p) :
    op = interceptCall o ∨ op.isOrdinary := by
  rcases List.mem_append.1 h with h | h
  · right
    rcases List.mem_append.1 h with h | h
    · simp only [List.mem_cons, List.not_mem_nil, or_false] at h
      rcases h with rfl | rfl | rfl | rfl <;> rfl
    · exact List.all_eq_true.1 (Boxing.all_packParams _ _) op h
  · exact .inl (List.mem_singleton.1 h)

/-- Behind the call of the interceptor all instructions are regular. -/
theorem isRegular_of_mem_behind {op : Op Label} (h : op ∈ Block.opsOf (blocksBehind p)) :
    op.isRegular (Kind.ofType p.signature.result) := by
  simp only [blocksBehind, Block.opsOf_cons, Block.opsOf_append, List.mem_append] at h
  rcases h with h | h | h
  · exact List.all_eq_true.1 (all_answerOps _) op h
  · obtain ⟨b, hb, hop⟩ := List.mem_flatMap.1 h
    obtain ⟨ops, hops, rfl⟩ := List.mem_map.1 hb
    exact List.all_eq_true.1 (all_presentOps hops) op hop
  · have hall : (Block.opsOf (handlerBlocks p)).all
        (Op.isRegular (Kind.ofType p.signature.result)) := rfl
    exact List.all_eq_true.1 hall op h

/-- **The instructions of a forwarder** are regular, but for the call of the interceptor. -/
theorem isRegular_of_mem {op : Op Label} (h : op ∈ (body o p).ops) :
    op = interceptCall o ∨ op.isRegular (Kind.ofType p.signature.result) := by
  rw [Block.ops_eq (body_lines o p), blocks, Block.opsOf_cons, List.mem_append] at h
  rcases h with h | h
  · exact (isOrdinary_of_mem_intercept h).imp_right Op.isRegular_of_isOrdinary
  · exact .inr (isRegular_of_mem_behind h)

/-- **A forwarder returns what its member returns.** -/
theorem returns_body (o : Outline) (p : Planned) :
    (body o p).Returns (Kind.ofType p.signature.result) := by
  intro kind hop
  rcases isRegular_of_mem hop with h | h
  · cases h
  · exact of_decide_eq_true h

theorem writable_body (hb : o.bindings.WellNamed) : ∀ op ∈ (body o p).ops, op.Writable := by
  intro op hop
  rcases isRegular_of_mem hop with rfl | h
  · refine ⟨4, ?_⟩
    unfold Op.argumentCount
    rw [intercepting, ← Bindings.callDescriptor_eq, hb.callDescriptor]
    rfl
  · exact Op.writable_of_isRegular h

/-- The jump of the answer leads to the place where there is an object. -/
theorem all_answerOps_leadsTo (t : JvmType) : (answerOps t).all
    (Op.leadsTo (Block.labelsOf (presentBlocks t))) := by
  unfold answerOps presentBlocks presentOps
  cases Kind.ofType t with
  | none => rfl
  | some kind =>
    cases kind with
    | reference =>
      rw [List.all_append, Op.all_leadsTo (Boxing.all_unboxValue t)]
      rfl
    | _ => rfl

theorem all_presentOps_leadsTo {labels : List Label} {ops : List (Op Label)}
    (h : ops ∈ presentOps t) : ops.all (Op.leadsTo labels) := by
  unfold presentOps at h
  split at h
  · exact absurd h List.not_mem_nil
  · exact absurd h List.not_mem_nil
  · rw [List.mem_singleton.1 h, List.all_append, Op.all_leadsTo (Boxing.all_unboxValue t)]
    rfl

theorem target_mem {op : Op Label} (hop : op ∈ Block.opsOf (blocks o p)) {label : Label}
    (hlabel : label ∈ op.targets) : label ∈ Block.labelsOf (blocks o p) := by
  rw [labelsOf_blocks]
  simp only [blocks, blocksBehind, Block.opsOf_cons, Block.opsOf_append, List.mem_append] at hop
  rcases hop with h | h | h | h
  · rcases isOrdinary_of_mem_intercept h with rfl | h
    · exact absurd hlabel List.not_mem_nil
    · rw [Op.targets_of_isOrdinary h] at hlabel
      exact absurd hlabel List.not_mem_nil
  · have hpresent := Op.mem_of_leadsTo (List.all_eq_true.1 (all_answerOps_leadsTo _) op h) hlabel
    exact List.mem_cons_of_mem _ (List.mem_cons_of_mem _ (List.mem_append_left _ hpresent))
  · obtain ⟨b, hb, hop⟩ := List.mem_flatMap.1 h
    obtain ⟨ops, hops, rfl⟩ := List.mem_map.1 hb
    exact Op.mem_of_leadsTo (List.all_eq_true.1 (all_presentOps_leadsTo hops) op hop) hlabel
  · have hall : (Block.opsOf (handlerBlocks p)).all (Op.leadsTo []) := rfl
    exact absurd (Op.mem_of_leadsTo (List.all_eq_true.1 hall op h) hlabel) List.not_mem_nil

/-! ## Acceptance -/

/-- The stretches of a forwarder: handlers watch the first one. -/
def stretches (o : Outline) (p : Planned) (e : TypeState) : List Stretch :=
  ⟨⟨some startLabel, intercept o p⟩, e, [rethrowLabel, wrapLabel]⟩ ::
    (blocksBehind p).map (⟨·, e.raised, []⟩)

theorem blocks_stretches (o : Outline) (p : Planned) (e : TypeState) :
    Stretch.blocks (stretches o p e) = blocks o p := by
  unfold Stretch.blocks stretches blocks
  rw [List.map_cons, List.map_map]
  exact congrArg _ (List.map_id _)

/-- A block behind the first one may be entered in front of it. -/
theorem accepts_of_mem {e : TypeState} {b : Block} {label : Label} (hb : b ∈ blocksBehind p)
    (hlabel : b.label = some label) : Accepts (stretches o p e) label e.raised :=
  ⟨_, List.mem_cons_of_mem _ (List.mem_map_of_mem hb), hlabel, le_refl _⟩

theorem mem_handlerBlocks {b : Block} (h : b ∈ handlerBlocks p) : b ∈ blocksBehind p :=
  List.mem_cons_of_mem _ (List.mem_append_right _ h)

theorem accepts_handler {e : TypeState} : ∀ label ∈ [rethrowLabel, wrapLabel],
    Accepts (stretches o p e) label e.raised := by
  intro label hlabel
  simp only [List.mem_cons, List.not_mem_nil, or_false] at hlabel
  rcases hlabel with rfl | rfl
  · exact accepts_of_mem (mem_handlerBlocks List.mem_cons_self) rfl
  · exact accepts_of_mem (mem_handlerBlocks (List.mem_cons_of_mem _ List.mem_cons_self)) rfl

/-- **The blocks behind the first one end the method.** -/
theorem flows_behind {e : TypeState} {b : Block} (hb : b ∈ blocksBehind p) :
    Flows m offset (stretches o p e) [] i e.raised b.ops none := by
  rcases List.mem_cons.1 hb with rfl | hb
  · refine flows_answer fun hne => ?_
    obtain ⟨ops, rest, hops⟩ := List.exists_cons_of_ne_nil hne
    have hmem : (⟨some presentLabel, ops⟩ : Block) ∈ presentBlocks p.signature.result :=
      List.mem_map_of_mem (hops ▸ List.mem_cons_self)
    exact accepts_of_mem (List.mem_cons_of_mem _ (List.mem_append_left _ hmem)) rfl
  · rcases List.mem_append.1 hb with hb | hb
    · obtain ⟨ops, hops, rfl⟩ := List.mem_map.1 hb
      exact flows_present hops
    · simp only [handlerBlocks, List.mem_cons, List.not_mem_nil, or_false] at hb
      rcases hb with rfl | rfl
      · exact Flows.throw rfl (List.forall_mem_nil _)
      · exact flows_wrap

/-- **The blocks behind the answer may be entered**: by its jump, or as handlers. -/
theorem entered_behind {pre : List Stretch} {b : Block} {e : TypeState} {guards : List Label}
    {q q' : Stretch} (hb : b ∈ presentBlocks p.signature.result ++ handlerBlocks p)
    (hq : q ∈ pre) (hstart : q.label = some startLabel) (hq' : q' ∈ pre)
    (hanswer : q'.ops = answerOps p.signature.result) :
    EnteredFrom (body o p).handlers pre ⟨b, e, guards⟩ := by
  rcases List.mem_append.1 hb with hb | hb
  · obtain ⟨ops, hops, rfl⟩ := List.mem_map.1 hb
    refine .jump q' hq' (.jump .ifNonNull presentLabel) ?_ presentLabel List.mem_cons_self rfl
    rw [hanswer]
    unfold presentOps at hops
    unfold answerOps
    split at hops
    · exact absurd hops List.not_mem_nil
    · exact absurd hops List.not_mem_nil
    · rename_i kind hno hkind
      cases kind with
      | reference => exact absurd rfl hno
      | _ => exact List.mem_append_left _ (List.mem_cons_of_mem _ List.mem_cons_self)
  · simp only [handlerBlocks, List.mem_cons, List.not_mem_nil, or_false] at hb
    rcases hb with rfl | rfl
    · refine .raised (guard rethrowLabel "java/lang/Error") ?_ rfl q hq hstart
      refine List.mem_append_left _ (List.mem_map_of_mem (List.mem_append_right _ ?_))
      exact List.mem_cons_of_mem _ List.mem_cons_self
    · refine .raised (guard wrapLabel "java/lang/Throwable") ?_ rfl q hq hstart
      exact List.mem_append_right _ List.mem_cons_self

/-- The range of every handler is the call of the interceptor. -/
theorem handler_mem {h : Code.Handler Label} (hh : h ∈ (body o p).handlers) :
    h.start = startLabel ∧ h.stop = endLabel ∧ h.handler ∈ [rethrowLabel, wrapLabel] := by
  rcases List.mem_append.1 hh with hh | hh
  · obtain ⟨name, -, rfl⟩ := List.mem_map.1 hh
    exact ⟨rfl, rfl, List.mem_cons_self⟩
  · rw [List.mem_singleton.1 hh]
    exact ⟨rfl, rfl, List.mem_cons_of_mem _ List.mem_cons_self⟩

theorem certificate_body (hb : o.bindings.WellNamed)
    (hparams : ∀ t ∈ p.signature.params, t ≠ .void) {e : TypeState} {v : SlotType}
    (hv : v.fits .reference) (he : e = ⟨v :: Boxing.slotsOf p.signature.params, []⟩)
    (hpaired : e.Paired) (hlocals : Boxing.LieAt e.locals 1 p.signature.params) :
    Certificate m e (body o p) (stretches o p e) := by
  have hflows : ∀ offset, Flows m offset (stretches o p e) [rethrowLabel, wrapLabel] 0 e
      (intercept o p) (some e.raised) := by
    subst he
    exact fun offset =>
      Flows.of_straight (straight_intercept hb hparams hv rfl hlocals) accepts_handler
  refine ⟨?_, ?_, ?_, ⟨_, _, rfl, le_refl _, ?_⟩, ?_, fun offset => ?_, fun h hh => ?_⟩
  · rw [blocks_stretches]
    exact body_lines o p
  · rw [blocks_stretches]
    exact nodup_labelsOf o p
  · have hne := blocks_nonempty o p
    rw [← blocks_stretches o p e] at hne
    exact fun s hs => hne _ (List.mem_map_of_mem hs)
  · refine .cons (.passed _ rfl ((hflows id).passesOn ?_)) (.of_forall fun s hs pre hpre => ?_)
    · simp [intercept]
    · obtain ⟨b, hb, rfl⟩ := List.mem_map.1 hs
      exact entered_behind hb (hpre List.mem_cons_self) rfl
        (hpre (List.mem_cons_of_mem _ List.mem_cons_self)) rfl
  · intro s hs
    rcases List.mem_cons.1 hs with rfl | hs
    · exact hpaired
    · obtain ⟨b, -, rfl⟩ := List.mem_map.1 hs
      exact hpaired.raised
  · refine .cons (hflows offset) (fun t ht => ?_) (.of_ends fun s hs i => ?_)
    · cases ht
      exact ⟨_, _, rfl, le_refl _⟩
    · obtain ⟨b, hb, rfl⟩ := List.mem_map.1 hs
      exact flows_behind hb
  · obtain ⟨hstart, hstop, hhandler⟩ := handler_mem hh
    refine ⟨[], [_], _, rfl, ⟨_, _, rfl, ?_⟩, ⟨_, _, rfl, ?_⟩, fun s hs => ?_⟩
    · rw [hstart]
    · rw [hstop]
    · rw [List.mem_singleton.1 hs]
      exact hhandler

/-- The descriptor of a forwarder is read back. -/
theorem parse_method (o : Outline) (hparams : ∀ t ∈ p.signature.params, t.isReadableValue)
    (hresult : p.signature.result.isReadable) :
    JvmType.ofMethodDescriptor (method o p).descriptor =
      .ok (p.signature.params, p.signature.result) :=
  JvmType.ofMethodDescriptor_methodDescriptor hparams hresult

/-- **Nothing is wrong with a forwarder.** -/
theorem sound_method (hb : o.bindings.WellNamed)
    (hparams : ∀ t ∈ p.signature.params, t.isReadableValue)
    (hresult : p.signature.result.isReadable) (thisName : String) :
    Sound ((method o p).shape thisName) (body o p) := by
  have hvalues : ∀ t ∈ p.signature.params, t ≠ .void := fun t ht =>
    of_decide_eq_true (Bool.and_eq_true_iff.1 (hparams t ht)).1
  have hinstance : Access.has (method o p).access Access.isStatic = false := by
    change Access.has (Access.isPublic ||| Access.isFinal) Access.isStatic = false
    decide
  obtain ⟨v, hreceiver, hv, -, -⟩ :=
    TypeState.exists_receiver ((Code.MethodDraft.isStatic_shape thisName _).trans hinstance)
  have hentry := TypeState.entry_of_descriptor (m := (method o p).shape thisName)
    (parse_method o hparams hresult)
  rw [hreceiver] at hentry
  refine ⟨?_, writable_body hb, ⟨_, hentry⟩, fun program l e hl he => ?_⟩
  · refine Block.exists_resolve (body_lines o p) (nodup_labelsOf o p) (blocks_nonempty o p)
      (fun op hop label hlabel => target_mem hop hlabel) fun h hh => ?_
    obtain ⟨hstart, hstop, hhandler⟩ := handler_mem hh
    refine ⟨[], [_], _, rfl, ⟨_, _, rfl, ?_⟩, ⟨_, _, rfl, ?_⟩, ?_⟩
    · rw [hstart]
    · rw [hstop]
    · rw [labelsOf_blocks]
      exact List.mem_cons_of_mem _ (List.mem_cons_of_mem _ (List.mem_append_right _ hhandler))
  · have hweight := hl.weightOf_le
    rw [Block.ops_eq (body_lines o p), blocks, Block.opsOf_cons, intercept, Op.weightOf_append,
      Op.weightOf_append, Op.weightOf_append] at hweight
    have hbound := Boxing.bound_of_packParams hvalues 1 (by decide)
      ((((Nat.le_add_left _ _).trans (Nat.le_add_right _ _)).trans (Nat.le_add_right _ _)).trans
        hweight)
    cases he.symm.trans hentry
    refine ⟨_, certificate_body hb hvalues hv rfl (TypeState.paired_entry hentry) ?_⟩
    exact ⟨⟨[v], [], by rw [List.append_nil]; rfl, rfl⟩, hbound⟩

end Forwarder

end Proxy

end ProxyForge
