import ProxyForge.Proofs.Proxy.Arguments
import ProxyForge.Proofs.Proxy.Guarding
/-!
# Calls through forwarders

A forwarder is run from its start to its end, as long as nothing it calls raises an exception. It
asks the interceptor once, with the instance, the descriptor of its member and an array of the
boxed arguments, and replies with the answer as a value of the member's result
(`Forwarder.forwards_of_carries`).
-/

namespace ProxyForge

namespace Proxy

open Code (Block Context Kind Label MethodHeader MethodRef Op Program TypeState)
open Exec (Carries Ending Event Leads Routine State Thing Value World raise runOps runOps_of_append
  runOps_of_cons)
open Boxing (Lies Packs Unwraps objectClass)

namespace Forwarder

variable {o : Outline} {m : Planned} {r : Routine} {place : Nat → Nat} {w : World}
  {locals : Nat → Option Value} {stack args monitors : List Value} {things : List Thing}
  {events : List Event} {self answer : Value} {t : JvmType} {p : Primitive}
  {header : MethodHeader} {program : Program} {context : Context} {entry : TypeState}
  {known : Nat → TypeState}

/-! ## What is done -/

/-- The class of the exception for a missing answer. -/
def missingClass : String := "java/lang/NullPointerException"

/-- The constructor of that exception. -/
def missing : MethodRef :=
  ⟨missingClass, "<init>", "(Ljava/lang/String;)V", false⟩

/-- **How a forwarder replies** to an answer where a result of a type is due: how it ends, and what
it does for that. -/
inductive Replies (things : List Thing) : JvmType → Value → Ending → List Event → Prop
  /-- Nothing is returned. -/
  | void {answer : Value} : Replies things .void answer (.returned none) []
  /-- The answer is cast, unless any object will do. -/
  | reference {t : JvmType} {answer v : Value} {done : List Event} (ht : t.isReference)
    (h : Unwraps t answer v done) : Replies things t answer (.returned (some v)) done
  /-- An answer is unboxed where a primitive is due. -/
  | present {p : Primitive} {answer v : Value} {done : List Event} (hanswer : answer ≠ .null)
    (h : Unwraps (.primitive p) answer v done) :
    Replies things (.primitive p) answer (.returned (some v)) (.tested answer :: done)
  /-- A missing one is an exception. -/
  | missing {p : Primitive} :
    Replies things (.primitive p) .null (.threw (.made things.length))
      [.tested .null, .called ⟨.special, missing, [.made things.length, .string "missing value"],
        things ++ [.object missingClass]⟩ none]

/-- **A forwarder asks the interceptor**, once, and replies with its answer. -/
def Forwards (thisName : String) (b : Bindings) (m : Planned) (r : Routine) : Prop :=
  ∀ (w : World) (s : State) (self : Value) (args : List Value),
    Enters ⟨thisName, m.signature.name, m.signature.descriptor, false⟩ (self :: args) s.locals →
    s.stack = [] → args.length = m.signature.params.length →
    ∃ interceptor descriptor answer items packed ending replied s',
      Leads w r (.running 0 s) (.ended ending s') ∧
      Packs m.signature.params args items packed ∧
      Replies (s.things ++ [.array "java/lang/Object" items]) m.signature.result answer ending
        replied ∧
      s'.events = s.events ++
        [.readField (interceptorField thisName b) self interceptor,
          .readStatic (memberField thisName b m) descriptor] ++
        packed ++
        [.called ⟨.interface, intercepting b,
          [interceptor, self, descriptor, .made s.things.length],
          s.things ++ [.array "java/lang/Object" items]⟩ (some answer)] ++
        replied

/-! ## The call -/

/-- **What the interceptor is asked with** is pushed. -/
theorem exists_asking (things : List Thing) (monitors : List Value) (events : List Event)
    (hself : locals 0 = some self) (hkind : self.kind = .reference)
    (hsmall : m.signature.params.length < 2 ^ 31) (hlies : Lies locals 1 m.signature.params args) :
    ∃ interceptor descriptor items packed, Packs m.signature.params args items packed ∧
      runOps w (asking o m) ⟨locals, [], things, monitors, events⟩ =
        some ⟨locals, [interceptor, self, descriptor, .made things.length].reverse,
          things ++ [.array objectClass items], monitors,
          events ++ [.readField (interceptorField o.thisName o.bindings) self interceptor,
            .readStatic (memberField o.thisName o.bindings m) descriptor] ++ packed⟩ := by
  obtain ⟨i, hi⟩ : ∃ i, w.answer events
    (.held (interceptorField o.thisName o.bindings) self) = i := ⟨_, rfl⟩
  obtain ⟨d, hd⟩ : ∃ d, w.answer
    (events ++ [.readField (interceptorField o.thisName o.bindings) self i])
    (.static (memberField o.thisName o.bindings m)) = d := ⟨_, rfl⟩
  have hfront : runOps w [.load .reference 0, .getField (interceptorField o.thisName o.bindings),
      .load .reference 0, .getStatic (memberField o.thisName o.bindings m)]
      ⟨locals, [], things, monitors, events⟩ = _ :=
    runOps_of_cons (Exec.advance_load hself hkind) <|
      runOps_of_cons (Exec.advance_getField i hi) <|
        runOps_of_cons (Exec.advance_load hself hkind) <|
          runOps_of_cons (Exec.advance_getStatic d hd) rfl
  obtain ⟨items, packed, hpacks, hpack⟩ := Boxing.exists_packParams (w := w) [d, self, i] things
    monitors (events ++ [.readField (interceptorField o.thisName o.bindings) self i] ++
      [.readStatic (memberField o.thisName o.bindings m) d]) hsmall hlies
  refine ⟨i, d, items, packed, hpacks, runOps_of_append hfront ?_⟩
  rw [List.append_assoc events] at hpack ⊢
  exact hpack

/-- **The interceptor is called**, and its answer is an object. -/
theorem exists_call (things : List Thing) (monitors : List Value) (events : List Event)
    (h : Carries r (body o m) place)
    (ht : Typed header (body o m) program context entry known) (hself : locals 0 = some self)
    (hkind : self.kind = .reference) (hsmall : m.signature.params.length < 2 ^ 31)
    (hlies : Lies locals 1 m.signature.params args) :
    ∃ interceptor descriptor answer items packed, Packs m.signature.params args items packed ∧
      answer.kind = .reference ∧
      Leads w r (.running 0 ⟨locals, [], things, monitors, events⟩)
        (.running (place (answerAt o m)) ⟨locals, [answer], things ++ [.array objectClass items],
          monitors, events ++ [.readField (interceptorField o.thisName o.bindings) self interceptor,
            .readStatic (memberField o.thisName o.bindings m) descriptor] ++ packed ++
            [.called ⟨.interface, intercepting o.bindings,
              [interceptor, self, descriptor, .made things.length],
              things ++ [.array objectClass items]⟩ (some answer)]⟩) := by
  obtain ⟨i, d, items, packed, hpacks, hrun⟩ := exists_asking (o := o) (w := w) things monitors
    events hself hkind hsmall hlies
  have hops : ∀ (k : Nat) (op : Op Label), (intercept o m)[k]? = some op →
      (body o m).ops[k]? = some op := fun k op hop => by
    rw [Block.ops_eq (body_lines o m), blocks, Block.opsOf_cons,
      List.getElem?_append_left (List.getElem?_eq_some_iff.1 hop).1]
    exact hop
  have hplain : ∀ op ∈ asking o m, op.targets = [] := fun op hop =>
    Op.targets_of_isOrdinary (List.all_eq_true.1 (all_asking o m) op hop)
  -- the call takes all that lies on the stack
  obtain ⟨ps, t, hparse, hcount⟩ := ht.exists_operands (asking o m) (fun k op hop => hops k op (by
      rwa [intercept_eq, List.getElem?_append_left (List.getElem?_eq_some_iff.1 hop).1])) hplain
    (getElem?_eq_interceptCall.2 rfl) rfl hrun
  obtain ⟨hthree, hresult⟩ := Bindings.arity_of_callDescriptor hparse
  have hfour : [i, self, d, .made things.length].length =
      Run.State.operandCount .interface ps := by
    have hcounted : Run.State.operandCount .interface ps = ps.length + 1 := rfl
    rw [hcounted] at hcount ⊢
    simp only [List.length_reverse, List.length_cons, List.length_nil] at hcount ⊢
    omega
  obtain ⟨answer, hanswer, hcall⟩ := Exec.exists_result (w := w) .interface
    (intercepting o.bindings) locals [i, self, d, .made things.length] []
    (things ++ [.array objectClass items]) monitors
    (events ++ [.readField (interceptorField o.thisName o.bindings) self i,
      .readStatic (memberField o.thisName o.bindings m) d] ++ packed) hparse hresult hfour
  have hlength := length_ops o m
  have hbefore := answerAt_lt o m
  have hwrap : wrapAt o m = rethrowAt o m + 1 := rfl
  have hleads := h.leads (i := 0) (fun k op hop => by
      rw [Nat.zero_add]
      exact hops k op hop) (fun op hop => ?_) (by
      change 0 + answerAt o m < _
      omega)
    (runOps_of_append hrun (runOps_of_cons hcall rfl))
  · rw [h.first, Nat.zero_add] at hleads
    exact ⟨i, d, answer, items, packed, hpacks, hanswer, hleads⟩
  · rcases List.mem_append.1 hop with hop | hop
    · exact hplain op hop
    · rw [List.mem_singleton.1 hop]
      rfl

/-! ## The reply -/

/-- A block that returns an object as a value of a type. -/
theorem exists_unboxed (locals : Nat → Option Value) (things : List Thing) (monitors : List Value)
    (events : List Event) (h : Carries r (body o m) place) {pre post : List Block} {b : Block}
    (hsplit : blocks o m = pre ++ b :: post) {kind : Kind}
    (hops : b.ops = Boxing.unboxValue t ++ [.ret (some kind)]) (hkind : Kind.ofType t = some kind)
    (hanswer : answer.kind = .reference) : ∃ v done s', Unwraps t answer v done ∧
      Leads w r (.running (place (Block.size pre)) ⟨locals, [answer], things, monitors, events⟩)
        (.ended (.returned (some v)) s') ∧ s'.events = events ++ done := by
  have ht : t ≠ .void := by
    rintro rfl
    cases hkind
  obtain ⟨done, hunwraps, hrun⟩ :=
    Boxing.exists_unboxValue w locals answer [] things monitors events ht
  have hplain : ∀ op ∈ Boxing.unboxValue (L := Label) t, op.targets = [] := fun op hop =>
    Op.targets_of_isOrdinary (List.all_eq_true.1 (Boxing.all_unboxValue t) op hop)
  obtain ⟨hleads, hret⟩ := h.leads_front (body_lines o m) hsplit _ hops hplain hrun
  have hvalue := Boxing.kind_unwrapped w things events ht hanswer
  rw [Option.some.inj (hkind.symm.trans hvalue)] at hret
  exact ⟨_, done, _, hunwraps, hleads.trans (h.returns hret rfl), rfl⟩

/-- What is done with an answer where a primitive is due. -/
theorem answerOps_primitive (p : Primitive) : answerOps (.primitive p) =
    [.dup] ++ .jump .ifNonNull presentLabel :: Op.throwNew missingClass "missing value" := by
  cases p <;> rfl

theorem presentBlocks_primitive (p : Primitive) : ∃ kind, Kind.ofType (.primitive p) = some kind ∧
    presentBlocks (.primitive p) =
      [⟨some presentLabel, Boxing.unboxValue (.primitive p) ++ [.ret (some kind)]⟩] := by
  cases p <;> exact ⟨_, rfl, rfl⟩

/-- The block for an answer that is there stands behind the first one of the answer. -/
theorem split_present {b : Block} (h : presentBlocks m.signature.result = [b]) : blocks o m =
    [⟨some startLabel, intercept o m⟩, ⟨some endLabel, answerOps m.signature.result⟩] ++
      b :: handlerBlocks m := by
  rw [blocks, blocksBehind, h]
  rfl

theorem size_present : Block.size [⟨some startLabel, intercept o m⟩,
    ⟨some endLabel, answerOps m.signature.result⟩] = presentAt o m := by
  rw [Block.size_cons, Block.size_cons]
  rfl

theorem position_present {ops : List (Op Label)}
    (h : presentBlocks m.signature.result = [⟨some presentLabel, ops⟩]) :
    (body o m).positions[presentLabel]? = some (presentAt o m) :=
  size_present (o := o) ▸
    Exec.position_of_split (body_lines o m) (nodup_labelsOf o m) (split_present h) rfl

/-- The instructions that make the exception for a missing answer. -/
def missingOps {L : Type} : List (Op L) :=
  [.new missingClass, .dup, .string "missing value", .invoke .special missing]

theorem runs_missingOps : runOps w missingOps ⟨locals, stack, things, monitors, events⟩ =
    some ⟨locals, .made things.length :: stack, things ++ [.object missingClass], monitors,
        events ++ [.called ⟨.special, missing, [.made things.length, .string "missing value"],
          things ++ [.object missingClass]⟩ none]⟩ := by
  have hinit : (⟨locals, [.made things.length, .string "missing value"].reverse ++
      .made things.length :: stack, things ++ [.object missingClass], monitors, events⟩ :
      State).advance w (.invoke .special missing) = _ :=
    Exec.advance_invoke_void _ Dispatcher.parse_throwNew rfl
  exact runOps_of_cons rfl <| runOps_of_cons (Exec.advance_dup rfl) <| runOps_of_cons rfl <|
    runOps_of_cons hinit rfl

/-- **A missing answer is an exception.** -/
theorem leads_missing (h : Carries r (body o m) place)
    (hprimitive : m.signature.result = .primitive p) {s s' : State}
    (hrun : runOps w missingOps s = some s') {v : Value} {rest : List Value}
    (hstack : s'.stack = v :: rest) :
    Leads w r (.running (place (answerAt o m + 2)) s) (.ended (.threw v) s') := by
  have hops : ∀ (k : Nat) (op : Op Label), (missingOps (L := Label) ++ [.throw])[k]? = some op →
      (body o m).ops[answerAt o m + 2 + k]? = some op := fun k op hop => by
    rw [Nat.add_assoc, ← size_answer o m]
    refine Exec.getElem?_of_split (body_lines o m) (split_answer o m) ?_
    rw [hprimitive, answerOps_primitive, Nat.add_comm]
    exact hop
  have hthrow := hops (missingOps (L := Label)).length _ rfl
  have hend := (List.getElem?_eq_some_iff.1 hthrow).1
  have hleads := h.leads (fun k op hop => hops k op ?_) (by simp [missingOps, Op.targets]) hend hrun
  · have hthrown := h.throws (w := w) hthrow hstack
    rw [raise_behind h (h.place_le (by omega) (Nat.le_of_lt hend))] at hthrown
    exact hleads.trans hthrown
  · exact (List.getElem?_append_left (List.getElem?_eq_some_iff.1 hop).1).trans hop

/-- **The answer is returned**, or it is missing. -/
theorem exists_reply (locals : Nat → Option Value) (things : List Thing) (monitors : List Value)
    (events : List Event) (h : Carries r (body o m) place)
    (hanswer : answer.kind = .reference) : ∃ ending replied s',
      Leads w r (.running (place (answerAt o m)) ⟨locals, [answer], things, monitors, events⟩)
        (.ended ending s') ∧
      Replies things m.signature.result answer ending replied ∧ s'.events = events ++ replied := by
  have hreference : Kind.ofType m.signature.result = some .reference →
      m.signature.result.isReference → ∃ ending replied s',
        Leads w r (.running (place (answerAt o m)) ⟨locals, [answer], things, monitors, events⟩)
          (.ended ending s') ∧
        Replies things m.signature.result answer ending replied ∧
        s'.events = events ++ replied := by
    intro hkind ht
    obtain ⟨v, done, s', hunwraps, hleads, hevents⟩ := exists_unboxed (w := w) locals things
      monitors events h (split_answer o m) (by
        unfold answerOps
        rw [hkind]) hkind hanswer
    rw [size_answer] at hleads
    exact ⟨_, done, s', hleads, .reference ht hunwraps, hevents⟩
  cases hresult : m.signature.result with
  | void =>
    have hops : (⟨some endLabel, answerOps m.signature.result⟩ : Block).ops =
        [.pop] ++ [.ret none] := by
      rw [hresult]
      rfl
    obtain ⟨hleads, hret⟩ := h.leads_front (w := w)
      (s := ⟨locals, [answer], things, monitors, events⟩) (body_lines o m) (split_answer o m) _ hops
      (by simp [Op.targets]) (runOps_of_cons (Exec.advance_pop hanswer) rfl)
    rw [size_answer] at hleads
    exact ⟨_, [], _, hleads.trans (h.returns_none (size_answer o m ▸ hret)), .void,
      (List.append_nil _).symm⟩
  | primitive p =>
    obtain ⟨kind, hkind, hblocks⟩ := presentBlocks_primitive p
    rw [← hresult] at hblocks hkind
    have hops : (⟨some endLabel, answerOps m.signature.result⟩ : Block).ops =
        [.dup] ++ .jump .ifNonNull presentLabel :: (missingOps ++ [.throw]) := by
      rw [hresult]
      exact answerOps_primitive p
    obtain ⟨hdup, hjump⟩ := h.leads_front (w := w)
      (s := ⟨locals, [answer], things, monitors, events⟩) (body_lines o m) (split_answer o m) _ hops
      (by simp [Op.targets]) (runOps_of_cons (Exec.advance_dup hanswer) rfl)
    rw [size_answer] at hdup hjump
    have hlength := length_ops o m
    have hbefore := answerAt_lt o m
    have hwrap : wrapAt o m = rethrowAt o m + 1 := rfl
    have htested := hdup.trans (h.tests hjump
      (position_present hblocks) (by simp; omega) rfl)
    by_cases hnull : answer = .null
    · subst hnull
      rw [if_pos rfl] at htested
      exact ⟨_, _, _, htested.trans (leads_missing h hresult runs_missingOps rfl), .missing,
        List.append_assoc _ _ _⟩
    · rw [if_neg hnull] at htested
      obtain ⟨v, done, s', hunwraps, hleads, hevents⟩ := exists_unboxed (w := w) locals things
        monitors (events ++ [.tested answer]) h (split_present hblocks) rfl hkind hanswer
      rw [size_present] at hleads
      rw [hresult] at hunwraps
      exact ⟨_, _, s', htested.trans hleads, .present hnull hunwraps,
        hevents.trans (List.append_assoc _ _ _)⟩
  | object name | array element =>
    rw [← hresult]
    exact hreference (by rw [hresult]; rfl) (by rw [hresult]; rfl)

/-! ## The run -/

/-- The parameters of a forwarder lie within sixteen bits. -/
theorem bound_of_typed (ht : Typed header (body o m) program context entry known)
    (hparams : ∀ t ∈ m.signature.params, t ≠ .void) :
    1 + (Boxing.slotsOf m.signature.params).length < 65536 := by
  have hweight := ht.weight
  rw [Block.ops_eq (body_lines o m), blocks, Block.opsOf_cons, intercept, Op.weightOf_append,
    Op.weightOf_append, Op.weightOf_append] at hweight
  exact Boxing.bound_of_packParams hparams 1 (by decide)
    ((((Nat.le_add_left _ _).trans (Nat.le_add_right _ _)).trans (Nat.le_add_right _ _)).trans
      hweight)

/-- So there are not many. -/
theorem length_params_lt (ht : Typed header (body o m) program context entry known)
    (hparams : ∀ t ∈ m.signature.params, t ≠ .void) : m.signature.params.length < 2 ^ 31 := by
  have hbound := bound_of_typed ht hparams
  have hlength := length_le_slotsOf hparams
  omega

/-- **A forwarder asks the interceptor and replies with its answer.** -/
theorem forwards_of_carries (h : Carries r (body o m) place)
    (ht : Typed header (body o m) program context entry known)
    (hparams : ∀ t ∈ m.signature.params, t ≠ .void) : Forwards o.thisName o.bindings m r := by
  intro w s self args henters hstack hlength
  obtain ⟨locals, stack, things, monitors, events⟩ := s
  obtain rfl : stack = [] := hstack
  have hbound := bound_of_typed ht hparams
  have hsmall := length_params_lt ht hparams
  obtain ⟨hself, hkind, hlies⟩ := lies_of_enters rfl rfl hparams hbound hlength henters
  obtain ⟨interceptor, descriptor, answer, items, packed, hpacks, hanswer, hcall⟩ :=
    exists_call (w := w) things monitors events h ht hself hkind hsmall hlies
  obtain ⟨ending, replied, s', hleads, hreplies, hevents⟩ := exists_reply (w := w) locals _ monitors
    _ h hanswer
  exact ⟨interceptor, descriptor, answer, items, packed, ending, replied, s', hcall.trans hleads,
    hpacks, hreplies, hevents⟩

end Forwarder

end Proxy

end ProxyForge
