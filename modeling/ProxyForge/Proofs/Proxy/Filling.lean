import ProxyForge.Proofs.Proxy.Forwarding
/-!
# Descriptors are filled

The class initializer, run from its start. It fills the descriptor field of one member after the
other, each with what the factory makes of the method that reflection finds for this very member
(`Initializer.Filled`), and the stack is empty in between. What reflection may throw becomes a
linkage error with the message that it had (`Initializer.Converts`).
-/

namespace ProxyForge

namespace Proxy

open Code (Block Body Context Handler Kind Label MethodHeader MethodRef Op Program TypeState)
open Exec (Carries Ending Event Gathers Leads Routine State Thing Value World raise runOps
  runOps_of_append runOps_of_cons setLocal)
open Boxing (Denotes classClass)

namespace Initializer

variable {o : Outline} {m : Planned} {r : Routine} {place : Nat → Nat} {w : World}
  {locals : Nat → Option Value} {things : List Thing} {monitors : List Value}
  {events : List Event} {members : List Planned} {header : MethodHeader} {program : Program}
  {context : Context} {entry : TypeState} {known : Nat → TypeState} {ps : List JvmType}
  {t : JvmType}

/-! ## One member -/

/-- What looks a member up: a public one among all members that its class has, any other one among
those that its class declares. -/
def looking (m : Planned) : MethodRef :=
  ⟨"java/lang/Class",
    if m.visibility = .publicAccess then "getMethod" else "getDeclaredMethod",
    "(Ljava/lang/String;[Ljava/lang/Class;)Ljava/lang/reflect/Method;", false⟩

/-- **The descriptor field of a member is filled**: its declaring class is loaded, the member is
looked up there with the classes of its parameters, and what the factory makes of it and the id is
kept. -/
inductive Filled (thisName : String) (b : Bindings) : Planned → Value → List Event → Prop
  | mk (m : Planned) (loaded found descriptor : Value) (classes : List Value) (read : List Event)
    (things : List Thing) (hclasses : Gathers Denotes m.signature.params classes read) :
    Filled thisName b m descriptor
      ([.called ⟨.static, loading, [.string m.declaring], things⟩ (some loaded)] ++ read ++
        [.called ⟨.virtual, looking m, [loaded, .string m.signature.name, .made things.length],
            things ++ [.array "java/lang/Class" classes]⟩ (some found),
          .called ⟨.static, describing b, [found, .int m.id],
            things ++ [.array "java/lang/Class" classes]⟩ (some descriptor),
          .wroteStatic (memberField thisName b m) descriptor])

/-- What the generator writes for a member. -/
theorem fillDescriptor_eq {L : Type} (o : Outline) (m : Planned) : fillDescriptor (L := L) o m =
    pushLoadedClass m.declaring ++ [.string m.signature.name] ++
      Boxing.pushClasses m.signature.params ++
      [.invoke .virtual (looking m), .int m.id, .invoke .static (describing o.bindings),
        .putStatic (memberField o.thisName o.bindings m)] := by
  rw [← o.descriptorField_eq]
  rfl

theorem parse_looking (m : Planned) : JvmType.ofMethodDescriptor (looking m).descriptor =
    .ok ([.object "java.lang.String", .array (.object "java.lang.Class")],
      .object "java.lang.reflect.Method") := by
  change JvmType.ofMethodDescriptor
    "(Ljava/lang/String;[Ljava/lang/Class;)Ljava/lang/reflect/Method;" = _
  exact JvmType.ofMethodDescriptor_of_eq (by decide +kernel) (by decide +kernel) (by decide +kernel)

/-- **One field is filled.** -/
theorem exists_filled (hfactory : JvmType.ofMethodDescriptor o.bindings.factoryDescriptor =
      .ok ([.object "java.lang.reflect.Method", .primitive .int], t))
    (ht : Kind.ofType t = some .reference)
    (hsmall : m.signature.params.length < 2 ^ 31) (locals : Nat → Option Value)
    (things : List Thing) (monitors : List Value) (events : List Event) :
    ∃ descriptor done things', Filled o.thisName o.bindings m descriptor done ∧
      runOps w (fillDescriptor o m) ⟨locals, [], things, monitors, events⟩ =
        some ⟨locals, [], things', monitors, events ++ done⟩ := by
  obtain ⟨c, -, hload⟩ := exists_pushLoadedClass (w := w) m.declaring locals [] things monitors
    events
  obtain ⟨classes, read, hclasses, hpush⟩ := Boxing.exists_pushClasses (w := w) locals
    [.string m.signature.name, c] things monitors
    (events ++ [.called ⟨.static, loading, [.string m.declaring], things⟩ (some c)]) hsmall
  obtain ⟨found, -, hlook⟩ := Exec.exists_result (w := w) .virtual (looking m) locals
    [c, .string m.signature.name, .made things.length] [] (things ++ [.array classClass classes])
    monitors _ (parse_looking m) rfl rfl
  obtain ⟨d, -, hdescribe⟩ := Exec.exists_result (w := w) .static (describing o.bindings) locals
    [found, .int m.id] [] (things ++ [.array classClass classes]) monitors _ hfactory ht rfl
  have hfront : runOps w (pushLoadedClass m.declaring ++ [.string m.signature.name])
      ⟨locals, [], things, monitors, events⟩ = _ :=
    runOps_of_append hload (runOps_of_cons rfl rfl)
  have hrun : runOps w (fillDescriptor o m) ⟨locals, [], things, monitors, events⟩ = _ :=
    fillDescriptor_eq (L := Nat) o m ▸ runOps_of_append (runOps_of_append hfront hpush)
      (runOps_of_cons hlook <| runOps_of_cons rfl <| runOps_of_cons hdescribe <|
        runOps_of_cons Exec.advance_putStatic rfl)
  refine ⟨d, _, things ++ [.array classClass classes],
    .mk m c found d classes read things hclasses, hrun.trans ?_⟩
  simp only [List.append_assoc]
  rfl

/-- **The fields of several members are filled**, one after the other. -/
theorem exists_fills (hfactory : JvmType.ofMethodDescriptor o.bindings.factoryDescriptor =
      .ok ([.object "java.lang.reflect.Method", .primitive .int], t))
    (ht : Kind.ofType t = some .reference)
    (hsmall : ∀ m ∈ members, m.signature.params.length < 2 ^ 31)
    (locals : Nat → Option Value) (things : List Thing) (monitors : List Value)
    (events : List Event) :
    ∃ descriptors done things', Gathers (Filled o.thisName o.bindings) members descriptors done ∧
      runOps w (members.flatMap (fillDescriptor o)) ⟨locals, [], things, monitors, events⟩ =
        some ⟨locals, [], things', monitors, events ++ done⟩ := by
  induction members generalizing things events with
  | nil =>
    refine ⟨[], [], things, .nil, ?_⟩
    rw [List.append_nil]
    rfl
  | cons m members ih =>
    obtain ⟨d, one, things₁, hfilled, hone⟩ := exists_filled (w := w) hfactory ht
      (hsmall m List.mem_cons_self) locals things monitors events
    obtain ⟨ds, more, things₂, hrest, hmore⟩ :=
      ih (fun m' hm' => hsmall m' (List.mem_cons_of_mem m hm')) things₁ (events ++ one)
    refine ⟨d :: ds, one ++ more, things₂, .cons hfilled hrest, ?_⟩
    rw [List.flatMap_cons, ← List.append_assoc]
    exact runOps_of_append hone hmore

/-! ## Positions -/

/-- The blocks of the class initializer, if there are members. -/
def classBlocks (o : Outline) : List Block :=
  [⟨some startLabel, o.plan.members.flatMap (fillDescriptor o)⟩, ⟨some endLabel, [.ret none]⟩,
    ⟨some noMethodLabel, throwAs "java/lang/NoSuchMethodError"⟩,
    ⟨some noClassLabel, throwAs "java/lang/NoClassDefFoundError"⟩]

/-- The position of the return. -/
def returnAt (o : Outline) : Nat :=
  (o.plan.members.flatMap (fillDescriptor (L := Label) o)).length

/-- The positions of labels. -/
def position (o : Outline) (label : Label) : Nat :=
  if label = startLabel then 0
  else if label = endLabel then returnAt o
  else if label = noMethodLabel then returnAt o + 1
  else returnAt o + 8

theorem classBody_lines (h : o.plan.members ≠ []) :
    (classBody o).lines = Block.linesOf (classBlocks o) := by
  rw [classBody_eq h]
  simp [Block.linesOf, Block.lines, classBlocks]

theorem nodup_labelsOf (o : Outline) : (Block.labelsOf (classBlocks o)).Nodup := by
  change [startLabel, endLabel, noMethodLabel, noClassLabel].Nodup
  decide

theorem length_classBody (h : o.plan.members ≠ []) :
    (classBody o).ops.length = returnAt o + 15 := by
  rw [Block.ops_eq (classBody_lines h), classBlocks, Block.opsOf_cons, List.length_append]
  rfl

theorem getElem?_returnAt (h : o.plan.members ≠ []) :
    (classBody o).ops[returnAt o]? = some (.ret none) := by
  rw [Block.ops_eq (classBody_lines h), classBlocks, Block.opsOf_cons, returnAt,
    List.getElem?_append_right (Nat.le_refl _), Nat.sub_self]
  rfl

/-- **Where the labels stand.** -/
theorem positions_eq (h : o.plan.members ≠ []) :
    ∀ label ∈ [startLabel, endLabel, noMethodLabel, noClassLabel],
      (classBody o).positions[label]? = some (position o label) := by
  have hat : ∀ (pre post : List Block) (b : Block) (label : Label),
      classBlocks o = pre ++ b :: post → b.label = some label → Block.size pre = position o label →
        (classBody o).positions[label]? = some (position o label) :=
    fun pre post b label hsplit hlabel hsize =>
      hsize ▸ Exec.position_of_split (classBody_lines h) (nodup_labelsOf o) hsplit hlabel
  simp only [List.forall_mem_cons]
  refine ⟨hat [] _ _ _ rfl rfl rfl, hat [_] _ _ _ rfl rfl ?_, hat [_, _] _ _ _ rfl rfl ?_,
    hat [_, _, _] _ _ _ rfl rfl ?_, List.forall_mem_nil _⟩ <;>
  · simp only [Block.size_cons]
    rfl

/-! ## The handlers -/

/-- What asks an exception for its message. -/
def asking : MethodRef :=
  ⟨"java/lang/Throwable", "getMessage", "()Ljava/lang/String;", false⟩

/-- The constructor of an error with a message. -/
def errorInit (error : String) : MethodRef :=
  ⟨error, "<init>", "(Ljava/lang/String;)V", false⟩

theorem parse_asking : JvmType.ofMethodDescriptor asking.descriptor =
    .ok ([], .object "java.lang.String") :=
  JvmType.ofMethodDescriptor_of_eq (by decide +kernel) (by decide +kernel) (by decide +kernel)

/-- **At a place an error is thrown** with the message of the exception that was caught. -/
def Rethrows (r : Routine) (at_ : Nat) (error : String) : Prop :=
  ∀ (w : World) (e : Value) (s : State), s.stack = [e] → e.kind = .reference → ∃ message s',
    Leads w r (.running at_ s) (.ended (.threw (.made s.things.length)) s') ∧
      s'.things = s.things ++ [.object error] ∧
      s'.events = s.events ++
        [.called ⟨.virtual, asking, [e], s.things ++ [.object error]⟩ (some message),
          .called ⟨.special, errorInit error, [.made s.things.length, message],
            s.things ++ [.object error]⟩ none]

/-- **Code that converts what reflection throws**: two entries of the exception table hold the
instructions in front of the return, and no others. -/
structure Converts (r : Routine) (stop noMethod noClass : Nat) : Prop where
  returns : ∃ next, r.fetch stop = some (.ret none, next)
  caught : r.handlers.map Handler.caught =
    [some "java/lang/NoSuchMethodException", some "java/lang/ClassNotFoundException"]
  spans : ∀ h ∈ r.handlers, ∀ pc, Exec.spans h pc ↔ pc < stop
  early : ∀ (w : World) (pc : Nat) (e : Value) (s : State), pc < stop →
    raise w r pc e s =
      if w.isSubclass (w.className s.things e) "java/lang/NoSuchMethodException" then
        .running noMethod ({ s with stack := [e] }.record (.caught e))
      else if w.isSubclass (w.className s.things e) "java/lang/ClassNotFoundException" then
        .running noClass ({ s with stack := [e] }.record (.caught e))
      else .ended (.threw e) s
  late : ∀ (w : World) (pc : Nat) (e : Value) (s : State), stop ≤ pc →
    raise w r pc e s = .ended (.threw e) s
  noMethod : Rethrows r noMethod "java/lang/NoSuchMethodError"
  noClass : Rethrows r noClass "java/lang/NoClassDefFoundError"

/-- **The exception table of the class initializer.** -/
theorem handlers_eq (h : Carries r (classBody o) place) (hmembers : o.plan.members ≠ []) :
    r.handlers =
      [⟨0, place (returnAt o), place (returnAt o + 1), some "java/lang/NoSuchMethodException"⟩,
        ⟨0, place (returnAt o), place (returnAt o + 8),
          some "java/lang/ClassNotFoundException"⟩] := by
  have hall := positions_eq hmembers
  simp only [List.forall_mem_cons] at hall
  obtain ⟨hstart, hend, hnoMethod, hnoClass, -⟩ := hall
  have hentries := h.handlers_eq (position o) fun g hg => ?_
  · rw [hentries, classBody_eq hmembers]
    simp only [List.map_cons, List.map_nil]
    change [Handler.mk (place 0) (place (returnAt o)) (place (returnAt o + 1)) _,
      Handler.mk (place 0) (place (returnAt o)) (place (returnAt o + 8)) _] = _
    rw [h.first]
  · rw [classBody_eq hmembers] at hg
    simp only [List.mem_cons, List.not_mem_nil, or_false] at hg
    rcases hg with rfl | rfl
    · exact ⟨hstart, hend, hnoMethod⟩
    · exact ⟨hstart, hend, hnoClass⟩

theorem raise_late (h : Carries r (classBody o) place) (hmembers : o.plan.members ≠ []) {pc : Nat}
    (hpc : place (returnAt o) ≤ pc) (e : Value) (s : State) :
    raise w r pc e s = .ended (.threw e) s := by
  have hspans : ∀ target caught, Exec.spans ⟨0, place (returnAt o), target, caught⟩ pc = false :=
    fun _ _ => decide_eq_false (by dsimp only; omega)
  unfold raise
  rw [handlers_eq h hmembers, List.find?_cons_of_neg, List.find?_cons_of_neg, List.find?_nil]
  · rw [hspans, Bool.false_and]
    exact Bool.false_ne_true
  · rw [hspans, Bool.false_and]
    exact Bool.false_ne_true

theorem raise_early (h : Carries r (classBody o) place) (hmembers : o.plan.members ≠ []) {pc : Nat}
    (hpc : pc < place (returnAt o)) (e : Value) (s : State) : raise w r pc e s =
      if w.isSubclass (w.className s.things e) "java/lang/NoSuchMethodException" then
        .running (place (returnAt o + 1)) ({ s with stack := [e] }.record (.caught e))
      else if w.isSubclass (w.className s.things e) "java/lang/ClassNotFoundException" then
        .running (place (returnAt o + 8)) ({ s with stack := [e] }.record (.caught e))
      else .ended (.threw e) s := by
  have hspans : ∀ target caught, Exec.spans ⟨0, place (returnAt o), target, caught⟩ pc = true :=
    fun _ _ => decide_eq_true ⟨Nat.zero_le _, hpc⟩
  unfold raise
  rw [handlers_eq h hmembers]
  split_ifs with hfirst hsecond
  · rw [List.find?_cons_of_pos]
    rw [hspans]
    exact hfirst
  · rw [List.find?_cons_of_neg, List.find?_cons_of_pos]
    · rw [hspans]
      exact hsecond
    · rw [hspans]
      exact hfirst
  · rw [List.find?_cons_of_neg, List.find?_cons_of_neg, List.find?_nil]
    · rw [hspans]
      exact hsecond
    · rw [hspans]
      exact hfirst

/-- **A handler throws an error** with the message of the exception. -/
theorem rethrows_of_carries (h : Carries r (classBody o) place) (hmembers : o.plan.members ≠ [])
    {pre post : List Block} {label : Label} {error : String}
    (hsplit : classBlocks o = pre ++ ⟨some label, throwAs error⟩ :: post)
    (hbehind : returnAt o ≤ Block.size pre) : Rethrows r (place (Block.size pre)) error := by
  intro w e s hstack hkind
  obtain ⟨locals, stack, things, monitors, events⟩ := s
  obtain rfl : stack = [e] := hstack
  obtain ⟨message, -, hask⟩ := Exec.exists_result (w := w) .virtual asking (setLocal locals 0 e) [e]
    [.made things.length, .made things.length] (things ++ [.object error]) monitors events
    parse_asking rfl rfl
  have hinit : (⟨setLocal locals 0 e, [.made things.length, message].reverse ++
      [.made things.length], things ++ [.object error], monitors,
      events ++ [.called ⟨.virtual, asking, [e], things ++ [.object error]⟩ (some message)]⟩ :
        State).advance w (.invoke .special (errorInit error)) = _ :=
    Exec.advance_invoke_void _ Dispatcher.parse_throwNew rfl
  have hlocal : setLocal locals 0 e (0 : UInt16).toNat = some e := Exec.setLocal_self locals 0 e
  have hrun : runOps w [.store .reference 0, .new error, .dup, .load .reference 0,
      .invoke .virtual asking, .invoke .special (errorInit error)]
      ⟨locals, [e], things, monitors, events⟩ = _ :=
    runOps_of_cons (Exec.advance_store hkind) <| runOps_of_cons rfl <|
      runOps_of_cons (Exec.advance_dup rfl) <| runOps_of_cons (Exec.advance_load hlocal hkind) <|
        runOps_of_cons hask <| runOps_of_cons hinit rfl
  obtain ⟨hleads, hthrow⟩ :=
    h.leads_front (classBody_lines hmembers) hsplit _ rfl (by simp [Op.targets]) hrun
  have hthrown := hleads.trans (h.throws hthrow rfl)
  rw [raise_late h hmembers (h.place_le (Nat.le_add_right_of_le hbehind)
    (Nat.le_of_lt (List.getElem?_eq_some_iff.1 hthrow).1))] at hthrown
  refine ⟨message, _, hthrown, rfl, ?_⟩
  simp only [List.append_assoc]
  rfl

/-- **What reflection throws is converted.** -/
theorem converts_of_carries (h : Carries r (classBody o) place) (hmembers : o.plan.members ≠ []) :
    Converts r (place (returnAt o)) (place (returnAt o + 1)) (place (returnAt o + 8)) := by
  have hhandlers := handlers_eq h hmembers
  have hsize : Block.size [⟨some startLabel, o.plan.members.flatMap (fillDescriptor o)⟩,
      ⟨some endLabel, [.ret none]⟩] = returnAt o + 1 := by
    simp only [Block.size_cons]
    rfl
  have hlast : Block.size [⟨some startLabel, o.plan.members.flatMap (fillDescriptor o)⟩,
      ⟨some endLabel, [.ret none]⟩,
      ⟨some noMethodLabel, throwAs "java/lang/NoSuchMethodError"⟩] = returnAt o + 8 := by
    simp only [Block.size_cons]
    rfl
  refine ⟨?_, ?_, fun g hg pc => ?_, fun w pc e s hpc => raise_early h hmembers hpc e s,
    fun w pc e s hpc => raise_late h hmembers hpc e s, ?_, ?_⟩
  · exact ⟨_, h.fetch_plain (getElem?_returnAt hmembers) rfl⟩
  · rw [hhandlers]
    rfl
  · rw [hhandlers] at hg
    simp only [List.mem_cons, List.not_mem_nil, or_false] at hg
    rcases hg with rfl | rfl
    · simp [Exec.spans]
    · simp [Exec.spans]
  · rw [← hsize]
    exact rethrows_of_carries h hmembers rfl (by omega)
  · rw [← hlast]
    exact rethrows_of_carries h hmembers rfl (by omega)

/-! ## The run -/

/-- **Code fills the descriptor fields of members**, in their order and with an empty stack behind
each, and then returns. -/
structure Initializes (thisName : String) (b : Bindings) (members : List Planned) (r : Routine) :
    Prop where
  fills : ∀ (w : World) (s : State) (front back : List Planned), members = front ++ back →
    s.stack = [] → ∃ pc s' descriptors done, Leads w r (.running 0 s) (.running pc s') ∧
      s'.stack = [] ∧ Gathers (Filled thisName b) front descriptors done ∧
      s'.events = s.events ++ done
  returns : ∀ (w : World) (s : State), s.stack = [] → ∃ s' descriptors done,
    Leads w r (.running 0 s) (.ended (.returned none) s') ∧
      Gathers (Filled thisName b) members descriptors done ∧ s'.events = s.events ++ done

/-- Without members there is nothing to do. -/
theorem initializes_nil (h : Carries r (classBody o) place) (hmembers : o.plan.members = []) :
    Initializes o.thisName o.bindings o.plan.members r := by
  have hret : (classBody o).ops[0]? = some (.ret none) := by
    rw [classBody, if_pos (List.isEmpty_iff.2 hmembers)]
    rfl
  rw [hmembers]
  refine ⟨fun w s front back hsplit hstack => ?_, fun w s _ => ?_⟩
  · rw [(List.append_eq_nil_iff.1 hsplit.symm).1]
    exact ⟨0, s, [], [], .refl _, hstack, .nil, (List.append_nil _).symm⟩
  · have hreturns := h.returns_none (w := w) (s := s) hret
    rw [h.first] at hreturns
    exact ⟨s, [], [], hreturns, .nil, (List.append_nil _).symm⟩

/-- The factory takes a method and an id. -/
theorem exists_parse_factory (ht : Typed header (classBody o) program context entry known)
    (hmembers : o.plan.members ≠ []) :
    ∃ t, JvmType.ofMethodDescriptor o.bindings.factoryDescriptor =
        .ok ([.object "java.lang.reflect.Method", .primitive .int], t) ∧
      Kind.ofType t = some .reference := by
  obtain ⟨m, members, hcons⟩ := List.exists_cons_of_ne_nil hmembers
  have hcall : .invoke .static (describing o.bindings) ∈ fillDescriptor (L := Label) o m := by
    rw [fillDescriptor_eq]
    exact List.mem_append_right _ (by simp)
  have hmem : .invoke .static (describing o.bindings) ∈ (classBody o).ops := by
    rw [Block.ops_eq (classBody_lines hmembers), classBlocks, Block.opsOf_cons]
    exact List.mem_append_left _
      (List.mem_flatMap.2 ⟨m, hcons ▸ List.mem_cons_self, hcall⟩)
  obtain ⟨params, t, hparse⟩ := ht.exists_parse hmem
  obtain ⟨rfl, hkind⟩ := Bindings.arity_of_factoryDescriptor hparse
  exact ⟨t, hparse, hkind⟩

/-- Code that is not too long names few parameters. -/
theorem length_params_lt (ht : Typed header (classBody o) program context entry known)
    (hm : m ∈ o.plan.members) : m.signature.params.length < 2 ^ 31 := by
  have hweight := ht.weight
  rw [Block.ops_eq (classBody_lines (List.ne_nil_of_mem hm)), classBlocks, Block.opsOf_cons,
    Op.weightOf_append] at hweight
  obtain ⟨front, back, hsplit⟩ := List.append_of_mem hm
  simp only [hsplit, List.flatMap_append, List.flatMap_cons, fillDescriptor, Op.weightOf_append]
    at hweight
  have hlength := Boxing.length_le_pushClasses m.signature.params
  have hclasses := Op.length_le_weightOf (Boxing.pushClasses (L := Label) m.signature.params)
  omega

/-- **The class initializer fills the descriptor fields.** -/
theorem initializes_of_carries (h : Carries r (classBody o) place)
    (ht : Typed header (classBody o) program context entry known) :
    Initializes o.thisName o.bindings o.plan.members r := by
  by_cases hmembers : o.plan.members = []
  · exact initializes_nil h hmembers
  have hsmall : ∀ m ∈ o.plan.members, m.signature.params.length < 2 ^ 31 := fun m hm =>
    length_params_lt ht hm
  obtain ⟨t, hfactory, hkind⟩ := exists_parse_factory ht hmembers
  have hruns : ∀ (w : World) (s : State) (front back : List Planned),
      o.plan.members = front ++ back → s.stack = [] → ∃ s' descriptors done,
        Leads w r (.running 0 s)
          (.running (place (front.flatMap (fillDescriptor (L := Label) o)).length) s') ∧
        s'.stack = [] ∧ Gathers (Filled o.thisName o.bindings) front descriptors done ∧
        s'.events = s.events ++ done := by
    intro w s front back hsplit hstack
    obtain ⟨locals, stack, things, monitors, events⟩ := s
    obtain rfl : stack = [] := hstack
    obtain ⟨descriptors, done, things', hfilled, hrun⟩ := exists_fills (w := w) hfactory hkind
      (fun m hm => hsmall m (hsplit ▸ List.mem_append_left _ hm)) locals things monitors events
    have hlength : (front.flatMap (fillDescriptor (L := Label) o)).length ≤ returnAt o := by
      rw [returnAt, hsplit, List.flatMap_append, List.length_append]
      exact Nat.le_add_right _ _
    have hleads := h.leads (i := 0) (fun k op hop => ?_) (fun op hop => ?_)
      (by rw [length_classBody hmembers]; omega) hrun
    · rw [h.first, Nat.zero_add] at hleads
      exact ⟨_, descriptors, done, hleads, rfl, hfilled, rfl⟩
    · refine Exec.getElem?_of_split (classBody_lines hmembers) (List.nil_append _).symm ?_
      rw [hsplit, List.flatMap_append,
        List.getElem?_append_left (List.getElem?_eq_some_iff.1 hop).1]
      exact hop
    · obtain ⟨m, -, hop⟩ := List.mem_flatMap.1 hop
      exact Op.targets_of_isOrdinary (List.all_eq_true.1 (all_fillDescriptor o m) op hop)
  refine ⟨fun w s front back hsplit hstack => ⟨_, hruns w s front back hsplit hstack⟩,
    fun w s hstack => ?_⟩
  obtain ⟨s', descriptors, done, hleads, -, hfilled, hevents⟩ :=
    hruns w s _ [] (List.append_nil _).symm hstack
  exact ⟨s', descriptors, done, hleads.trans (h.returns_none (getElem?_returnAt hmembers)), hfilled,
    hevents⟩

end Initializer

/-! ## Generated classes -/

variable {g : Generator} {blueprint : Blueprint} {a : Artifact}

/-- **Descriptors are filled.** The class initializer of a generated class, if no exception is
raised, fills the field for each member's descriptor, one after the other in the order of their
slots, with what the factory makes of the method that is found for this member and of its id. What
reflection throws in front of the return becomes a linkage error with the same message. -/
theorem descriptors_filled (h : generate g blueprint = .ok a)
    (htexts : ∀ file, blueprint.classFile g = .ok file → file.pool.TextsFit) :
    ∃ c initializer r, ClassFile.ofBytes a.bytes = .ok c ∧ c.methods[0]? = some initializer ∧
      c.memberName initializer = .ok "<clinit>" ∧ Routine.ofMember c initializer = some r ∧
      (∀ (k : Nat) (m : Planned), a.members[k]? = some m → m.slot.toNat = k) ∧
      Initializer.Initializes (Name.toInternal blueprint.name) g.bindings a.members r ∧
      (a.members ≠ [] →
        ∃ stop noMethod noClass, Initializer.Converts r stop noMethod noClass) := by
  obtain ⟨o, c, houtline, hmembers, hread, -, -, hmethods⟩ := exists_routines h htexts
  obtain ⟨hplan, hbindings, -, hname, -⟩ := outline_eq_ok houtline
  rw [hmembers, ← hname, ← hbindings]
  obtain ⟨initializer, r, _, hinitializer, hreads⟩ :=
    hmethods _ _ _ o.getElem?_methods_classInitializer rfl
  obtain ⟨_, _, _, _, htyped⟩ := hreads.typed
  refine ⟨c, initializer, r, hread, hinitializer, hreads.name, hreads.routine,
    fun k m hm => Plan.slot_of_mem_zipIdx hplan (List.mk_mem_zipIdx_iff_getElem?.2 hm),
    Initializer.initializes_of_carries hreads.carries htyped,
    fun hne => ⟨_, _, _, Initializer.converts_of_carries hreads.carries hne⟩⟩

/-- A class with members of every origin. -/
theorem descriptors_filled_adder : ∃ a, generate lengthwise adder = .ok a ∧
    (∀ file, adder.classFile lengthwise = .ok file → file.pool.TextsFit) ∧
    ∃ c initializer r, ClassFile.ofBytes a.bytes = .ok c ∧ c.methods[0]? = some initializer ∧
      Routine.ofMember c initializer = some r ∧
      Initializer.Initializes "demo/Adder$" lengthwise.bindings a.members r ∧
      ∃ stop noMethod noClass, Initializer.Converts r stop noMethod noClass := by
  obtain ⟨a, ha, htexts⟩ := generate_adder
  have hmembers : a.members ≠ [] := by
    rw [members_adder ha]
    decide +kernel
  obtain ⟨c, initializer, r, hread, hinitializer, -, hroutine, -, hinitializes, hconverts⟩ :=
    descriptors_filled ha htexts
  rw [toInternal_adder] at hinitializes
  exact ⟨a, ha, htexts, c, initializer, r, hread, hinitializer, hroutine, hinitializes,
    hconverts hmembers⟩

end Proxy

end ProxyForge
