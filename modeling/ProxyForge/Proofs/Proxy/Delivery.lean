import ProxyForge.Proofs.Proxy.Forwarding
/-!
# Arguments are delivered

The arguments of a call reach what they are meant for. The constructor passes its own on to the
superclass's constructor (`Initializer.constructs_of_carries`). A forwarder packs them for the
interceptor, and `dispatch` passes what was packed on to the superclass's method
(`Dispatcher.delivers_of_carries`).
-/

namespace ProxyForge

namespace Proxy

open Code (Block Body Context Kind Label Line MethodHeader MethodRef Op Program TypeState)
open Exec (Carries Ending Event Leads Routine State Thing Value World runOps runOps_of_append
  runOps_of_cons)
open Boxing (Inverts Lies Packs Unpacks WrapsResult objectClass)

variable {o : Outline} {m : Planned} {r : Routine} {place : Nat → Nat} {w : World}
  {locals : Nat → Option Value} {args items monitors : List Value} {things : List Thing}
  {events packed : List Event} {self member : Value} {header : MethodHeader} {program : Program}
  {context : Context} {entry : TypeState} {known : Nat → TypeState}

/-! ## The constructor -/

namespace Initializer

/-- What refuses a missing interceptor. -/
def requiring : MethodRef :=
  ⟨"java/util/Objects", "requireNonNull",
    "(Ljava/lang/Object;Ljava/lang/String;)Ljava/lang/Object;", false⟩

/-- The superclass's constructor. -/
def superInit (superName : String) (params : List JvmType) : MethodRef :=
  ⟨superName, "<init>", JvmType.methodDescriptor params .void, false⟩

/-- **A constructor passes its arguments on** to the superclass's constructor, all but the
interceptor, which it keeps. -/
def Constructs (thisName superName : String) (b : Bindings) (params : List JvmType) (r : Routine) :
    Prop :=
  ∀ (w : World) (s : State) (self interceptor : Value) (args : List Value),
    Enters ⟨thisName, "<init>", JvmType.methodDescriptor
      (.object (Name.toBinary (b.qualify "Interceptor")) :: params) .void, false⟩
      (self :: interceptor :: args) s.locals →
    s.stack = [] → args.length = params.length →
    ∃ required s', Leads w r (.running 0 s) (.ended (.returned none) s') ∧
      s'.events = s.events ++
        [.called ⟨.static, requiring, [interceptor, .string "interceptor"], s.things⟩
            (some required),
          .called ⟨.special, superInit superName params, self :: args, s.things⟩ none,
          .wroteField (interceptorField thisName b) self interceptor]

/-- The body of the constructor. -/
def constructorBody (o : Outline) : Body :=
  ⟨Line.straight (constructorOps o), []⟩

/-- The instructions in front of the call of the superclass's constructor. -/
def passingOps (o : Outline) : List (Op Label) :=
  [.load .reference 1, .string "interceptor", .invoke .static requiring, .pop,
    .load .reference 0] ++ Boxing.pushParams o.baseParams 2

/-- The instructions behind it, up to the return. -/
def keepingOps (o : Outline) : List (Op Label) :=
  [.invoke .special (superInit o.superName o.baseParams), .load .reference 0, .load .reference 1,
    .putField (interceptorField o.thisName o.bindings)]

theorem ops_constructorBody (o : Outline) :
    (constructorBody o).ops = passingOps o ++ keepingOps o ++ [.ret none] := by
  rw [constructorBody, Body.ops, Code.Body.opsOf_straight, constructorOps]
  simp [passingOps, keepingOps, Boxing.call, requiring, superInit, Outline.interceptorField_eq]

theorem parse_requiring : JvmType.ofMethodDescriptor requiring.descriptor =
    .ok ([.object "java.lang.Object", .object "java.lang.String"], .object "java.lang.Object") :=
  JvmType.ofMethodDescriptor_of_eq (by decide +kernel) (by decide +kernel) (by decide +kernel)

theorem targets_passingOps (o : Outline) : ∀ op ∈ passingOps o, op.targets = [] := by
  intro op hop
  rcases List.mem_append.1 hop with hop | hop
  · simp only [List.mem_cons, List.not_mem_nil, or_false] at hop
    rcases hop with rfl | rfl | rfl | rfl | rfl <;> rfl
  · exact Op.targets_of_isOrdinary (List.all_eq_true.1 (Boxing.all_pushParams _ _) op hop)

/-- The parameters of the superclass's constructor lie within sixteen bits. -/
theorem bound_of_typed (ht : Typed header (constructorBody o) program context entry known)
    (hparams : ∀ t ∈ o.baseParams, t ≠ .void) :
    2 + (Boxing.slotsOf o.baseParams).length < 65536 := by
  have hweight := ht.weight
  rw [ops_constructorBody, passingOps, Op.weightOf_append, Op.weightOf_append, Op.weightOf_append]
    at hweight
  have hpushed : Op.weightOf (Boxing.pushParams (L := Label) o.baseParams 2) ≤ 65535 := by omega
  exact Boxing.bound_of_pushParams hparams (le_refl 2) hpushed

/-- **The constructor passes its arguments on.** -/
theorem constructs_of_carries (h : Carries r (constructorBody o) place)
    (ht : Typed header (constructorBody o) program context entry known)
    (hparams : ∀ t ∈ o.baseParams, t ≠ .void) :
    Constructs o.thisName o.superName o.bindings o.baseParams r := by
  intro w s self interceptor args henters hstack hlength
  obtain ⟨locals, stack, things, monitors, events⟩ := s
  obtain rfl : stack = [] := hstack
  have hbound := bound_of_typed ht hparams
  obtain ⟨hself, hkind, hlies⟩ := lies_of_enters rfl rfl
    (List.forall_mem_cons.2 ⟨JvmType.noConfusion, hparams⟩)
    (by rw [Boxing.slotsOf_cons, List.length_append, Boxing.length_parameterSlots]
        change 1 + (1 + _) < _
        omega) (by rw [List.length_cons, hlength, List.length_cons]) henters
  obtain ⟨⟨hlocal, hinterceptor⟩, hrest⟩ := List.forall₂_cons.1 hlies
  have href : interceptor.kind = .reference := (Option.some.inj hinterceptor).symm
  -- the interceptor is required, and the arguments are pushed
  obtain ⟨x, hx, hrequired⟩ := Exec.exists_result (w := w) .static requiring locals
    [interceptor, .string "interceptor"] [] things monitors events parse_requiring rfl rfl
  have hpassing : runOps w (passingOps o) ⟨locals, [], things, monitors, events⟩ = _ :=
    runOps_of_append (runOps_of_cons (Exec.advance_load hlocal href) <| runOps_of_cons rfl <|
      runOps_of_cons hrequired <|
        runOps_of_cons (Exec.advance_pop hx) <|
          runOps_of_cons (Exec.advance_load hself hkind) rfl) (Boxing.runs_pushParams hrest)
  -- the call takes all that lies on the stack
  have hops := ops_constructorBody o
  obtain ⟨ps, t, hparse, hcount⟩ := ht.exists_operands (passingOps o) (fun k op hop => by
      rw [hops, List.append_assoc, List.getElem?_append_left (List.getElem?_eq_some_iff.1 hop).1]
      exact hop) (targets_passingOps o) (by
      rw [hops, List.append_assoc, List.getElem?_append_right (Nat.le_refl _), Nat.sub_self]
      rfl) rfl hpassing
  obtain ⟨harity, hvoid⟩ := JvmType.arity_of_methodDescriptor hparams hparse
  obtain rfl := hvoid.2 rfl
  have hall : (self :: args).length = Run.State.operandCount .special ps := by
    have hcounted : Run.State.operandCount .special ps = ps.length + 1 := rfl
    rw [hcounted] at hcount ⊢
    simp only [List.length_append, List.length_reverse, List.length_cons, List.length_nil]
      at hcount ⊢
    omega
  have hsuper : (⟨locals, (self :: args).reverse ++ [], things, monitors,
      events ++ [.called ⟨.static, requiring, [interceptor, .string "interceptor"], things⟩
        (some x)]⟩ : State).advance w (.invoke .special (superInit o.superName o.baseParams)) = _ :=
    Exec.advance_invoke_void _ hparse hall
  rw [List.reverse_cons, List.append_nil] at hsuper
  have hkeeping : runOps w (keepingOps o) _ = _ :=
    runOps_of_cons hsuper <| runOps_of_cons (Exec.advance_load hself hkind) <|
      runOps_of_cons (Exec.advance_load hlocal href) <| runOps_of_cons Exec.advance_putField rfl
  have hret : (constructorBody o).ops[0 + (passingOps o ++ keepingOps o).length]? =
      some (.ret none) := by
    rw [hops, Nat.zero_add, List.getElem?_append_right (Nat.le_refl _), Nat.sub_self]
    rfl
  have hleads := (h.leads (i := 0) (fun k op hop => ?_) (fun op hop => ?_)
    (List.getElem?_eq_some_iff.1 hret).1 (runOps_of_append hpassing hkeeping)).trans
      (h.returns_none hret)
  · rw [h.first] at hleads
    refine ⟨x, _, hleads, ?_⟩
    simp only [List.append_assoc]
    rfl
  · rw [hops, Nat.zero_add, List.getElem?_append_left (List.getElem?_eq_some_iff.1 hop).1]
    exact hop
  · rcases List.mem_append.1 hop with hop | hop
    · exact targets_passingOps o op hop
    · simp only [keepingOps, List.mem_cons, List.not_mem_nil, or_false] at hop
      rcases hop with rfl | rfl | rfl | rfl <;> rfl

end Initializer

/-! ## Dispatch -/

namespace Dispatcher

/-- The superclass's method. -/
def superMethod (superName : String) (m : Planned) : MethodRef :=
  ⟨superName, m.signature.name, m.signature.descriptor, false⟩

/-- **`dispatch` is asked for a member**, with arguments that were packed. -/
structure Asked (w : World) (b : Bindings) (m : Planned) (object member : Value) (args : List Value)
    (packed : List Event) (items : List Value) (s : State) : Prop where
  stack : s.stack = []
  object_lies : s.locals 0 = some object
  object_kind : object.kind = .reference
  member_lies : s.locals 2 = some member
  member_kind : member.kind = .reference
  /-- The member tells its id. -/
  id : w.returns s.events ⟨.virtual, telling b, [member], s.things⟩ = .int m.id
  array : ∃ a, s.locals 3 = some (.made a) ∧ s.things[a]? = some (.array "java/lang/Object" items)
  length : args.length = m.signature.params.length
  packs : Packs m.signature.params args items packed
  inverts : Inverts w packed

/-- **`dispatch` delivers arguments to the superclass's method**: those that were packed are what
it is called with, and its result is boxed and returned. -/
def Delivers (superName : String) (b : Bindings) (m : Planned) (r : Routine) : Prop :=
  ∀ (w : World) (s : State) (self member : Value) (args items : List Value) (packed : List Event),
    Asked w b m self member args packed items s →
    ∃ unpacked result item boxed s', Leads w r (.running 0 s) (.ended (.returned (some item)) s') ∧
      Unpacks m.signature.params items args unpacked ∧
      WrapsResult m.signature.result result item boxed ∧
      s'.events = s.events ++
        [.called ⟨.virtual, telling b, [member], s.things⟩ (some (.int m.id))] ++ unpacked ++
        [.called ⟨.special, superMethod superName m, self :: args, s.things⟩ result] ++ boxed

/-- **A member is reached** where its arguments were packed. -/
theorem exists_reached (hparams : ∀ t ∈ m.signature.params, t ≠ .void) (hcallable : Callable m)
    (hsmall : m.signature.params.length < 2 ^ 31) (hself : locals 0 = some self)
    (hkind : self.kind = .reference) {a : Nat} (harray : locals 3 = some (.made a))
    (hitems : things[a]? = some (.array objectClass items))
    (hlength : args.length = m.signature.params.length)
    (hpacks : Packs m.signature.params args items packed) (hinverts : Inverts w packed)
    (monitors : List Value) (events : List Event) :
    ∃ unpacked result item boxed, Unpacks m.signature.params items args unpacked ∧
      WrapsResult m.signature.result result item boxed ∧ item.kind = .reference ∧
      runOps w (superOps o m ++ Boxing.boxResult m.signature.result)
          ⟨locals, [], things, monitors, events⟩ =
        some ⟨locals, [item], things, monitors, events ++ unpacked ++
          [.called ⟨.special, superMethod o.superName m, self :: args, things⟩ result] ++
          boxed⟩ := by
  obtain ⟨ps, t, hparse, hcount, hvoid⟩ := hcallable
  obtain ⟨unpacked, hunpacks, hunpack⟩ := Boxing.exists_unpackParams (w := w) [self] monitors events
    hparams hlength hpacks hinverts 3 harray hitems hsmall
  have hfront : runOps w (.load .reference 0 :: Boxing.unpackParams m.signature.params 3)
      ⟨locals, [], things, monitors, events⟩ = _ :=
    runOps_of_cons (Exec.advance_load hself hkind) hunpack
  -- the instance and the arguments are exactly what the call takes
  have hall : (self :: args).length = Run.State.operandCount .special ps := by
    rw [List.length_cons, hlength, ← hcount]
    rfl
  obtain ⟨result, hresult, hcall⟩ := Exec.exists_advance_invoke (w := w) .special
    (superMethod o.superName m) locals (self :: args) [] things monitors (events ++ unpacked)
    hparse hall
  rw [List.reverse_cons, List.append_nil] at hcall
  have hboxed : Kind.ofType m.signature.result = result.map Value.kind :=
    (JvmType.kind_of_methodDescriptor hparams hparse).symm.trans hresult
  obtain ⟨item, boxed, hwraps, hitem, hbox⟩ := Boxing.exists_boxResult (w := w) result [] things
    monitors _ hboxed
  exact ⟨unpacked, result, item, boxed, hunpacks, hwraps, hitem,
    runOps_of_append (runOps_of_append hfront (runOps_of_cons hcall rfl)) hbox⟩

theorem targets_superOps (o : Outline) (m : Planned) :
    ∀ op ∈ superOps o m ++ Boxing.boxResult m.signature.result, op.targets = [] := by
  have hall : (superOps o m ++ Boxing.boxResult m.signature.result).all Op.isOrdinary := by
    rw [List.all_append, all_superOps, Boxing.all_boxResult]
    rfl
  exact fun op hop => Op.targets_of_isOrdinary (List.all_eq_true.1 hall op hop)

/-- **`dispatch` delivers arguments** for the members of the superclass. -/
theorem delivers_of_carries (h : Carries r (dispatchBody o) place)
    (hplan : Plan.Numbered o.plan.members) (hm : m ∈ o.plan.members)
    (hparams : ∀ t ∈ m.signature.params, t ≠ .void) (horigin : m.origin ≠ .interface)
    (hcallable : Callable m) (hsmall : m.signature.params.length < 2 ^ 31) :
    Delivers o.superName o.bindings m r := by
  intro w s self member args items packed hasked
  obtain ⟨locals, stack, things, monitors, events⟩ := s
  obtain rfl : stack = [] := hasked.stack
  have hlines := dispatchBody_lines o
  have hlabels := nodup_labelsOf hplan
  -- the id of the member lies in front of the switch
  have hid : (⟨locals, [member].reverse ++ [], things, monitors, events⟩ : State).advance w
      (.invoke .virtual (telling o.bindings)) = _ :=
    Exec.advance_invoke _ (parse_telling _) nofun rfl
  rw [hasked.id] at hid
  obtain ⟨hask, hswitch⟩ := h.leads_front hlines (List.nil_append _).symm
    [.load .reference 2, .invoke .virtual (telling o.bindings)] rfl (by simp [Op.targets])
    (runOps_of_cons (Exec.advance_load hasked.member_lies hasked.member_kind)
      (runOps_of_cons hid rfl))
  have hfirst : place (Block.size []) = 0 := h.first
  rw [hfirst] at hask
  -- the switch leads to the code for the member
  have hmem := memberBlock_mem (o := o) (mem_byId.2 hm)
  obtain ⟨pre, post, hsplit⟩ := List.append_of_mem (List.mem_cons_of_mem (switchBlock o) hmem)
  have hcase : (m.id, memberLabel m) ∈ switchCases o :=
    List.mem_map_of_mem (f := fun p => (p.id, memberLabel p)) (mem_byId.2 hm)
  have hselect := hask.trans
    (h.switches hswitch hcase (Exec.position_of_split hlines hlabels hsplit rfl) rfl)
  obtain ⟨a, harray, hitems⟩ := hasked.array
  obtain ⟨unpacked, result, item, boxed, hunpacks, hwraps, hitem, hrun⟩ :=
    exists_reached (o := o) hparams hcallable hsmall hasked.object_lies hasked.object_kind harray
      hitems hasked.length hasked.packs hasked.inverts monitors _
  have hreach : (memberBlock o m).ops = (superOps o m ++ Boxing.boxResult m.signature.result) ++
      [.ret (some item.kind)] := by
    rw [hitem, List.append_assoc]
    exact reach_eq horigin
  obtain ⟨hreached, hret⟩ := h.leads_front hlines hsplit _ hreach (targets_superOps o m) hrun
  exact ⟨unpacked, result, item, boxed, _,
    hselect.trans (hreached.trans (h.returns hret rfl)), hunpacks, hwraps, rfl⟩

end Dispatcher

/-! ## Generated classes -/

variable {g : Generator} {blueprint : Blueprint} {a : Artifact}

/-- **Arguments and results are transported.** In a generated class the constructor passes its
arguments on to the superclass's constructor; the forwarder of each planned member, if no exception
is raised, asks the interceptor once with the arguments in their order, and replies with the answer
as a result of the member; and for a member of the superclass `dispatch` delivers the arguments that
were packed to its implementation. -/
theorem arguments_delivered (h : generate g blueprint = .ok a)
    (htexts : ∀ file, blueprint.classFile g = .ok file → file.pool.TextsFit) :
    ∃ c superName constructor dispatch constructing dispatching,
      ClassFile.ofBytes a.bytes = .ok c ∧ c.thisName = .ok (Name.toInternal blueprint.name) ∧
      c.superName = .ok (some superName) ∧
      c.methods[1]? = some constructor ∧ c.memberName constructor = .ok "<init>" ∧
      Routine.ofMember c constructor = some constructing ∧
      c.methods[2 + a.members.length]? = some dispatch ∧ c.memberName dispatch = .ok "dispatch" ∧
      Routine.ofMember c dispatch = some dispatching ∧
      ((∀ t ∈ blueprint.baseParams, t ≠ .void) →
        Initializer.Constructs (Name.toInternal blueprint.name) superName g.bindings
          blueprint.baseParams constructing) ∧
      ∀ (k : Nat) (m : Planned), a.members[k]? = some m → (∀ t ∈ m.signature.params, t ≠ .void) →
        (m.origin ≠ .interface → Dispatcher.Delivers superName g.bindings m dispatching) ∧
        ∃ member forwarding, c.methods[2 + k]? = some member ∧
          c.memberName member = .ok m.signature.name ∧
          c.memberDescriptor member = .ok m.signature.descriptor ∧
          Routine.ofMember c member = some forwarding ∧
          Forwarder.Forwards (Name.toInternal blueprint.name) g.bindings m forwarding := by
  obtain ⟨o, c, houtline, hmembers, hread, hthis, hsuper, hmethods⟩ := exists_routines h htexts
  obtain ⟨hplan, hbindings, hbase, hname, -⟩ := outline_eq_ok houtline
  have hnumbered := Plan.numbered_of_ofSurface hplan
  rw [hmembers, ← hname, ← hbindings, ← hbase]
  obtain ⟨constructor, constructing, _, hconstructor, hcreads⟩ :=
    hmethods _ _ _ o.getElem?_methods_constructor rfl
  obtain ⟨dispatch, dispatching, _, hdispatch, hdreads⟩ :=
    hmethods _ _ _ o.getElem?_methods_dispatch rfl
  refine ⟨c, o.superName, constructor, dispatch, constructing, dispatching, hread, hthis, hsuper,
    hconstructor, hcreads.name, hcreads.routine, hdispatch, hdreads.name, hdreads.routine,
    fun hparams => ?_, fun k m hm hparams => ?_⟩
  · obtain ⟨_, _, _, _, htyped⟩ := hcreads.typed
    exact Initializer.constructs_of_carries hcreads.carries htyped hparams
  · obtain ⟨member, forwarding, _, hmember, hreads⟩ :=
      hmethods _ _ _ (Outline.getElem?_methods_forwarder hm) rfl
    obtain ⟨_, _, _, _, htyped⟩ := hreads.typed
    refine ⟨fun horigin => ?_, member, forwarding, hmember, hreads.name, hreads.descriptor,
      hreads.routine, Forwarder.forwards_of_carries hreads.carries htyped hparams⟩
    obtain ⟨_, _, _, _, hdtyped⟩ := hdreads.typed
    have hmem := List.mem_of_getElem? hm
    have hsmall := Forwarder.length_params_lt htyped hparams
    exact Dispatcher.delivers_of_carries hdreads.carries hnumbered hmem hparams horigin
      (Dispatcher.callable hnumbered hdtyped.resolve hdtyped.ops hdtyped.typing
        (by rw [TypeState.entry_ok hdtyped.enters]) hmem hparams horigin) hsmall

/-- A class with members of every origin. -/
theorem arguments_delivered_adder : ∃ a, generate lengthwise adder = .ok a ∧
    (∀ file, adder.classFile lengthwise = .ok file → file.pool.TextsFit) ∧
    ∃ c superName constructor constructing, ClassFile.ofBytes a.bytes = .ok c ∧
      c.methods[1]? = some constructor ∧ Routine.ofMember c constructor = some constructing ∧
      Initializer.Constructs "demo/Adder$" superName lengthwise.bindings [] constructing ∧
      ∀ (k : Nat) (m : Planned), a.members[k]? = some m →
        ∃ member forwarding, c.methods[2 + k]? = some member ∧
          Routine.ofMember c member = some forwarding ∧
          Forwarder.Forwards "demo/Adder$" lengthwise.bindings m forwarding := by
  obtain ⟨a, ha, htexts⟩ := generate_adder
  obtain ⟨c, superName, constructor, _, constructing, _, hread, -, -, hconstructor, -,
    hconstructing, -, -, -, hconstructs, hall⟩ := arguments_delivered ha htexts
  rw [toInternal_adder] at hconstructs hall
  refine ⟨a, ha, htexts, c, superName, constructor, constructing, hread, hconstructor,
    hconstructing, hconstructs (List.forall_mem_nil _), fun k m hm => ?_⟩
  have hplanned : m ∈ (adder.outlineBelow "demo/Base" lengthwise).plan.members :=
    members_adder ha ▸ List.mem_of_getElem? hm
  obtain ⟨-, member, forwarding, hmember, -, -, hforwarding, hforwards⟩ :=
    hall k m hm (typed_adder.members m hplanned).params_ne_void
  exact ⟨member, forwarding, hmember, hforwarding, hforwards⟩

end Proxy

end ProxyForge
