import ProxyForge.Proofs.Exec.Pieces
import ProxyForge.Proofs.Proxy.Modest
import ProxyForge.Proofs.Proxy.Routines
/-!
# The exceptions of forwarders

What happens to an exception in a forwarder, read back from a generated class. As long as the
interceptor may be running, the exception table sends an exception that is declared or unchecked to
a place that throws it again, and any other one to a place that wraps it (`Forwarder.Guards`).
Whatever is raised later leaves the forwarder as it is.
-/

namespace ProxyForge

namespace Proxy

open Code (Block Body Handler Kind Label MethodRef Op)
open Exec (Carries Config Event Leads Routine State Value World raise runOps runOps_of_cons
  setLocal)

namespace Forwarder

variable {o : Outline} {m : Planned} {r : Routine} {place : Nat → Nat} {w : World} {k : Nat}

/-! ## Positions -/

/-- The position of the answer, behind the call of the interceptor. -/
def answerAt (o : Outline) (m : Planned) : Nat :=
  (intercept (L := Label) o m).length

/-- The position where a missing answer is sorted out. -/
def presentAt (o : Outline) (m : Planned) : Nat :=
  answerAt o m + (answerOps m.signature.result).length

/-- The position where an exception is thrown again. -/
def rethrowAt (o : Outline) (m : Planned) : Nat :=
  presentAt o m + Block.size (presentBlocks m.signature.result)

/-- The position where an exception is wrapped. -/
def wrapAt (o : Outline) (m : Planned) : Nat :=
  rethrowAt o m + 1

/-- The positions of labels. -/
def position (o : Outline) (m : Planned) (label : Label) : Nat :=
  if label = startLabel then 0
  else if label = endLabel then answerAt o m
  else if label = presentLabel then presentAt o m
  else if label = rethrowLabel then rethrowAt o m
  else wrapAt o m

/-- The blocks of the answer stand behind the call of the interceptor. -/
theorem split_answer (o : Outline) (m : Planned) : blocks o m =
    [⟨some startLabel, intercept o m⟩] ++ ⟨some endLabel, answerOps m.signature.result⟩ ::
      (presentBlocks m.signature.result ++ handlerBlocks m) := rfl

theorem split_rethrow (o : Outline) (m : Planned) : blocks o m =
    (⟨some startLabel, intercept o m⟩ :: ⟨some endLabel, answerOps m.signature.result⟩ ::
      presentBlocks m.signature.result) ++ ⟨some rethrowLabel, [.throw]⟩ ::
        [⟨some wrapLabel, wrap (causeSlot m)⟩] := rfl

theorem split_wrap (o : Outline) (m : Planned) : blocks o m =
    (⟨some startLabel, intercept o m⟩ :: ⟨some endLabel, answerOps m.signature.result⟩ ::
      presentBlocks m.signature.result ++ [⟨some rethrowLabel, [.throw]⟩]) ++
        ⟨some wrapLabel, wrap (causeSlot m)⟩ :: [] := by
  rw [split_rethrow, List.append_assoc]
  rfl

theorem size_answer (o : Outline) (m : Planned) :
    Block.size [⟨some startLabel, intercept o m⟩] = answerAt o m := by
  rw [Block.size_cons]
  exact Nat.add_zero _

theorem size_rethrow (o : Outline) (m : Planned) :
    Block.size (⟨some startLabel, intercept o m⟩ :: ⟨some endLabel, answerOps m.signature.result⟩ ::
      presentBlocks m.signature.result) = rethrowAt o m := by
  rw [Block.size_cons, Block.size_cons, ← Nat.add_assoc]
  rfl

theorem size_wrap (o : Outline) (m : Planned) :
    Block.size (⟨some startLabel, intercept o m⟩ :: ⟨some endLabel, answerOps m.signature.result⟩ ::
      presentBlocks m.signature.result ++ [⟨some rethrowLabel, [.throw]⟩]) = wrapAt o m := by
  rw [Block.size_append, size_rethrow]
  rfl

theorem positions_start (o : Outline) (m : Planned) :
    (body o m).positions[startLabel]? = some 0 :=
  Exec.position_of_split (body_lines o m) (nodup_labelsOf o m) (List.nil_append _).symm rfl

theorem positions_end (o : Outline) (m : Planned) :
    (body o m).positions[endLabel]? = some (answerAt o m) :=
  size_answer o m ▸
    Exec.position_of_split (body_lines o m) (nodup_labelsOf o m) (split_answer o m) rfl

theorem positions_rethrow (o : Outline) (m : Planned) :
    (body o m).positions[rethrowLabel]? = some (rethrowAt o m) :=
  size_rethrow o m ▸
    Exec.position_of_split (body_lines o m) (nodup_labelsOf o m) (split_rethrow o m) rfl

theorem positions_wrap (o : Outline) (m : Planned) :
    (body o m).positions[wrapLabel]? = some (wrapAt o m) :=
  size_wrap o m ▸
    Exec.position_of_split (body_lines o m) (nodup_labelsOf o m) (split_wrap o m) rfl

/-- The number of instructions. -/
theorem length_ops (o : Outline) (m : Planned) : (body o m).ops.length = wrapAt o m + 6 := by
  rw [Block.ops_eq (body_lines o m), split_wrap, ← Block.size, Block.size_append, size_wrap]
  rfl

theorem answerAt_lt (o : Outline) (m : Planned) : answerAt o m < rethrowAt o m := by
  have := List.length_pos_of_ne_nil (answerOps_nonempty m.signature.result)
  unfold rethrowAt presentAt
  omega

/-! ## The call of the interceptor -/

/-- The instructions in front of the call of the interceptor. -/
def asking (o : Outline) (m : Planned) : List (Op Label) :=
  [.load .reference 0, .getField (interceptorField o.thisName o.bindings), .load .reference 0,
    .getStatic (memberField o.thisName o.bindings m)] ++ Boxing.packParams m.signature.params 1

/-- The position of the call. -/
def callAt (o : Outline) (m : Planned) : Nat :=
  (asking o m).length

theorem all_asking (o : Outline) (m : Planned) : (asking o m).all Op.isOrdinary := by
  rw [asking, List.all_append, Boxing.all_packParams]
  rfl

theorem intercept_eq (o : Outline) (m : Planned) :
    intercept o m = asking o m ++ [interceptCall o] := by
  unfold intercept
  rw [o.interceptorField_eq, o.descriptorField_eq, Bindings.callDescriptor_eq]
  rfl

theorem answerAt_eq (o : Outline) (m : Planned) : answerAt o m = callAt o m + 1 := by
  rw [answerAt, intercept_eq, List.length_append]
  rfl

theorem ops_eq (o : Outline) (m : Planned) : (body o m).ops =
    asking o m ++ interceptCall o :: Block.opsOf (blocksBehind m) := by
  rw [Block.ops_eq (body_lines o m), blocks, Block.opsOf_cons, intercept_eq, List.append_assoc]
  rfl

/-- **The interceptor is called** at one position. -/
theorem getElem?_eq_interceptCall :
    (body o m).ops[k]? = some (interceptCall o) ↔ k = callAt o m := by
  rw [ops_eq]
  constructor
  · intro hop
    rcases Nat.lt_trichotomy k (callAt o m) with hlt | heq | hlt
    · rw [List.getElem?_append_left hlt] at hop
      have hordinary := List.all_eq_true.1 (all_asking o m) _ (List.mem_of_getElem? hop)
      cases hordinary
    · exact heq
    · rw [List.getElem?_append_right (Nat.le_of_lt hlt),
        show k - (asking o m).length = k - (callAt o m + 1) + 1 by unfold callAt at *; omega,
        List.getElem?_cons_succ] at hop
      have hregular := isRegular_of_mem_behind (List.mem_of_getElem? hop)
      cases hregular
  · rintro rfl
    rw [callAt, List.getElem?_append_right (Nat.le_refl _), Nat.sub_self]
    rfl

/-! ## The exception table -/

/-- An entry of the exception table. -/
def entry (start stop handler : Nat) (caught : String) : Handler Nat :=
  ⟨start, stop, handler, some caught⟩

/-- **The exception table of a forwarder**: its entries have one range. -/
theorem handlers_eq (h : Carries r (body o m) place) : r.handlers =
    (passing m).map (entry (place 0) (place (answerAt o m)) (place (rethrowAt o m))) ++
      [entry (place 0) (place (answerAt o m)) (place (wrapAt o m)) "java/lang/Throwable"] := by
  have hlabels : ∀ g ∈ (body o m).handlers, g.start = startLabel ∧ g.stop = endLabel ∧
      (g.handler = rethrowLabel ∨ g.handler = wrapLabel) := by
    intro g hg
    rcases List.mem_append.1 hg with hg | hg
    · obtain ⟨name, -, rfl⟩ := List.mem_map.1 hg
      exact ⟨rfl, rfl, .inl rfl⟩
    · rw [List.mem_singleton.1 hg]
      exact ⟨rfl, rfl, .inr rfl⟩
  rw [h.handlers_eq (position o m) fun g hg => ?_]
  · unfold body
    rw [List.map_append, List.map_map]
    rfl
  · obtain ⟨hstart, hstop, hhandler⟩ := hlabels g hg
    rw [hstart, hstop]
    refine ⟨positions_start o m, positions_end o m, ?_⟩
    rcases hhandler with heq | heq
    · rw [heq]
      exact positions_rethrow o m
    · rw [heq]
      exact positions_wrap o m

/-- **Does an exception of a class pass through?** Its class is below a declared exception, or it
is unchecked. -/
def passes (w : World) (m : Planned) (name : String) : Bool :=
  m.exceptions.any (fun declared => w.isSubclass name (Name.toInternal declared)) ||
    w.isSubclass name "java/lang/RuntimeException" || w.isSubclass name "java/lang/Error"

/-- The exception table sends to the first place what passes through. -/
theorem any_passing (w : World) (m : Planned) (name : String) :
    (passing m).any (w.isSubclass name) = passes w m name := by
  rw [passing, Outline.thrownClasses, List.any_append, List.any_map, passes, Bool.or_assoc,
    List.any_cons, List.any_cons, List.any_nil, Bool.or_false]
  rfl

/-- The first entry that catches a class, where all of them have one range. -/
theorem find_entry (names : List String) {start stop handler other pc : Nat} {name last : String}
    (hpc : start ≤ pc ∧ pc < stop) (hlast : w.isSubclass name last) :
    ∃ g, (names.map (entry start stop handler) ++ [entry start stop other last]).find?
        (fun g => Exec.spans g pc && w.catches g name) = some g ∧
      g.handler = if names.any (w.isSubclass name) then handler else other := by
  have hspans : ∀ target caught, Exec.spans (entry start stop target caught) pc = true :=
    fun _ _ => decide_eq_true hpc
  induction names with
  | nil =>
    refine ⟨_, List.find?_cons_of_pos ?_, rfl⟩
    rw [hspans]
    exact hlast
  | cons caught names ih =>
    rw [List.map_cons, List.cons_append, List.any_cons]
    by_cases hcaught : w.isSubclass name caught
    · refine ⟨_, List.find?_cons_of_pos ?_, ?_⟩
      · rw [hspans]
        exact hcaught
      · rw [hcaught]
        rfl
    · obtain ⟨g, hfind, hhandler⟩ := ih
      refine ⟨g, ?_, ?_⟩
      · rw [List.find?_cons_of_neg, hfind]
        rw [hspans]
        exact hcaught
      · rw [hhandler, Bool.eq_false_of_not_eq_true hcaught]
        rfl

/-- **An exception that is raised before the answer** is thrown again if it passes through, and
wrapped otherwise. -/
theorem raise_before (h : Carries r (body o m) place) (hk : k < answerAt o m) {e : Value}
    {s : State} (he : w.isSubclass (w.className s.things e) "java/lang/Throwable") :
    raise w r (place k) e s = .running
      (if passes w m (w.className s.things e) then place (rethrowAt o m) else place (wrapAt o m))
      ({ s with stack := [e] }.record (.caught e)) := by
  have hlength := length_ops o m
  have hbefore := answerAt_lt o m
  have hwrap : wrapAt o m = rethrowAt o m + 1 := rfl
  have hpc : place 0 ≤ place k ∧ place k < place (answerAt o m) :=
    ⟨h.place_le (Nat.zero_le k) (by omega), h.ascending _ _ hk (by omega)⟩
  obtain ⟨g, hfind, hhandler⟩ := find_entry (passing m) hpc he
  unfold raise
  rw [handlers_eq h, hfind]
  dsimp only
  rw [hhandler, any_passing]

/-- **An exception that is raised later** leaves the forwarder. -/
theorem raise_behind (h : Carries r (body o m) place) {pc : Nat} (hpc : place (answerAt o m) ≤ pc)
    (e : Value) (s : State) : raise w r pc e s = .ended (.threw e) s := by
  have hnone : r.handlers.find? (fun g => Exec.spans g pc &&
      w.catches g (w.className s.things e)) = none := by
    rw [List.find?_eq_none, handlers_eq h]
    intro g hg
    have hstop : g.stop = place (answerAt o m) := by
      rcases List.mem_append.1 hg with hg | hg
      · obtain ⟨name, -, rfl⟩ := List.mem_map.1 hg
        rfl
      · rw [List.mem_singleton.1 hg]
        rfl
    have hspans : Exec.spans g pc = false := by
      refine decide_eq_false ?_
      rw [hstop]
      omega
    rw [hspans, Bool.false_and]
    exact Bool.false_ne_true
  unfold raise
  rw [hnone]

/-! ## The handlers -/

theorem parse_causeConstructor : JvmType.ofMethodDescriptor "(Ljava/lang/Throwable;)V" =
    .ok ([.object "java.lang.Throwable"], .void) :=
  JvmType.ofMethodDescriptor_of_eq (by decide +kernel) (by decide +kernel) rfl

/-- The class of the exception that wraps another one. -/
def undeclaredClass : String := "java/lang/reflect/UndeclaredThrowableException"

/-- Its constructor. -/
def wrapper : MethodRef :=
  ⟨undeclaredClass, "<init>", "(Ljava/lang/Throwable;)V", false⟩

/-- **An exception is thrown again.** -/
theorem leads_rethrow (h : Carries r (body o m) place) {e : Value} {s : State} {rest : List Value}
    (hstack : s.stack = e :: rest) :
    Leads w r (.running (place (rethrowAt o m)) s) (.ended (.threw e) s) := by
  have hop : (body o m).ops[rethrowAt o m]? = some .throw :=
    size_rethrow o m ▸ Exec.getElem?_of_split (body_lines o m) (split_rethrow o m) (k := 0) rfl
  have hlength := length_ops o m
  have hwrap : wrapAt o m = rethrowAt o m + 1 := rfl
  refine (h.throws hop hstack).trans ?_
  rw [raise_behind h (h.place_le (Nat.le_of_lt (answerAt_lt o m)) (by omega))]
  exact .refl _

/-- **An exception is thrown as the cause of a new one.** -/
theorem leads_wrap (h : Carries r (body o m) place) {e : Value} {s : State}
    (hstack : s.stack = [e]) (he : e.kind = .reference) :
    ∃ s', Leads w r (.running (place (wrapAt o m)) s)
        (.ended (.threw (.made s.things.length)) s') ∧
      s'.things = s.things ++ [.object undeclaredClass] ∧
      s'.events = s.events ++ [.called ⟨.special, wrapper, [.made s.things.length, e],
        s.things ++ [.object undeclaredClass]⟩ none] := by
  obtain ⟨locals, stack, things, monitors, events⟩ := s
  obtain rfl : stack = [e] := hstack
  have hinit : (⟨setLocal locals (causeSlot m).toNat e,
      [.made things.length, e].reverse ++ [.made things.length],
      things ++ [.object undeclaredClass], monitors, events⟩ : State).advance w
      (.invoke .special wrapper) = _ :=
    Exec.advance_invoke_void [.made things.length, e] parse_causeConstructor rfl
  have hrun : runOps w [.store .reference (causeSlot m), .new undeclaredClass, .dup,
      .load .reference (causeSlot m), .invoke .special wrapper]
      ⟨locals, [e], things, monitors, events⟩ = _ :=
    runOps_of_cons (Exec.advance_store he) <| runOps_of_cons rfl <|
      runOps_of_cons (Exec.advance_dup rfl) <|
        runOps_of_cons (Exec.advance_load (Exec.setLocal_self _ _ _) he) <|
          runOps_of_cons hinit rfl
  obtain ⟨hleads, hthrow⟩ := h.leads_front (body_lines o m) (split_wrap o m) _ rfl
    (by simp [Op.targets]) hrun
  have hlength := length_ops o m
  have hbefore := answerAt_lt o m
  have hwrap : wrapAt o m = rethrowAt o m + 1 := rfl
  rw [size_wrap] at hleads hthrow
  have hthrown := hleads.trans (h.throws hthrow rfl)
  rw [raise_behind h (h.place_le (by omega) (Nat.le_of_lt (List.getElem?_eq_some_iff.1 hthrow).1))]
    at hthrown
  exact ⟨_, hthrown, rfl, rfl⟩

/-! ## Guarded calls -/

/-- **Code that guards a call of the interceptor**, for a member: where it calls the interceptor,
where it throws an exception again, and where it wraps one. -/
structure Guards (b : Bindings) (m : Planned) (r : Routine) (call rethrow wrapping : Nat) :
    Prop where
  /-- The interceptor is called at one place. -/
  calls : ∀ pc, (∃ next, r.fetch pc = some (.invoke .interface (intercepting b), next)) ↔ pc = call
  /-- What is raised up to the call passes through, or is wrapped. -/
  early : ∀ (w : World) (pc : Nat) (e : Value) (s : State), (r.fetch pc).isSome → pc ≤ call →
    w.isSubclass (w.className s.things e) "java/lang/Throwable" →
      raise w r pc e s = .running
        (if passes w m (w.className s.things e) then rethrow else wrapping)
        ({ s with stack := [e] }.record (.caught e))
  /-- What is raised later leaves the method as it is. -/
  late : ∀ (w : World) (pc : Nat) (e : Value) (s : State), (r.fetch pc).isSome → call < pc →
    raise w r pc e s = .ended (.threw e) s
  behind : call < rethrow ∧ call < wrapping
  /-- The same exception is thrown again. -/
  rethrows : ∀ (w : World) (e : Value) (s : State), s.stack = [e] →
    Leads w r (.running rethrow s) (.ended (.threw e) s)
  /-- A new exception is thrown, with the other one as its cause. -/
  wraps : ∀ (w : World) (e : Value) (s : State), s.stack = [e] → e.kind = .reference →
    ∃ s', Leads w r (.running wrapping s) (.ended (.threw (.made s.things.length)) s') ∧
      s'.things = s.things ++ [.object undeclaredClass] ∧
      s'.events = s.events ++ [.called ⟨.special, wrapper, [.made s.things.length, e],
        s.things ++ [.object undeclaredClass]⟩ none]

/-- **The body of a forwarder guards the call.** -/
theorem guards_of_carries (h : Carries r (body o m) place) : Guards o.bindings m r
    (place (callAt o m)) (place (rethrowAt o m)) (place (wrapAt o m)) := by
  have hlength := length_ops o m
  have hanswer := answerAt_eq o m
  have hbefore := answerAt_lt o m
  have hwrap : wrapAt o m = rethrowAt o m + 1 := rfl
  refine ⟨fun pc => ⟨fun ⟨next, hfetch⟩ => ?_, ?_⟩, fun w pc e s hpc hle he => ?_,
    fun w pc e s hpc hlt => ?_, ⟨h.ascending _ _ (by omega) (by omega),
      h.ascending _ _ (by omega) (by omega)⟩, fun w e s => leads_rethrow h,
    fun w e s => leads_wrap h⟩
  · obtain ⟨k, hk, rfl⟩ := h.only pc (Option.isSome_iff_exists.2 ⟨_, hfetch⟩)
    obtain ⟨placed, hfetch', hplaced⟩ := h.fetch k _ (List.getElem?_eq_getElem hk)
    cases hfetch.symm.trans hfetch'
    have hop : (body o m).ops[k]? = some (interceptCall o) := by
      rw [List.getElem?_eq_getElem hk]
      generalize (body o m).ops[k] = op at hplaced
      cases hplaced
      rfl
    rw [getElem?_eq_interceptCall.1 hop]
  · rintro rfl
    exact ⟨_, h.fetch_plain (getElem?_eq_interceptCall.2 rfl) rfl⟩
  · obtain ⟨k, hk, rfl⟩ := h.only pc hpc
    have := (h.place_le_iff (Nat.le_of_lt hk) (j := callAt o m) (by omega)).1 hle
    exact raise_before (k := k) h (by omega) he
  · obtain ⟨k, hk, rfl⟩ := h.only pc hpc
    have := (h.place_lt_iff (i := callAt o m) (by omega) (Nat.le_of_lt hk)).1 hlt
    exact raise_behind h (h.place_le (by omega) (Nat.le_of_lt hk)) e s

end Forwarder

variable {g : Generator} {blueprint : Blueprint} {a : Artifact}

/-- **The exception policy of forwarders.** In a generated class, the forwarder of each planned
member throws an exception of the interceptor again if its class is below a declared exception,
`RuntimeException` or `Error`, and otherwise throws `UndeclaredThrowableException` with it as the
cause. Whatever is raised behind the call leaves the forwarder. -/
theorem forwarders_guard (h : generate g blueprint = .ok a)
    (htexts : ∀ file, blueprint.classFile g = .ok file → file.pool.TextsFit) :
    ∃ c, ClassFile.ofBytes a.bytes = .ok c ∧ ∀ (k : Nat) (m : Planned), a.members[k]? = some m →
      ∃ member r call rethrow wrapping, c.methods[2 + k]? = some member ∧
        c.memberName member = .ok m.signature.name ∧
        c.memberDescriptor member = .ok m.signature.descriptor ∧
        Routine.ofMember c member = some r ∧
        Forwarder.Guards g.bindings m r call rethrow wrapping := by
  obtain ⟨o, c, houtline, hmembers, hread, -, -, hmethods⟩ := exists_routines h htexts
  obtain ⟨-, hbindings, -⟩ := outline_eq_ok houtline
  refine ⟨c, hread, fun k m hm => ?_⟩
  rw [hmembers] at hm
  obtain ⟨member, r, place, hmember, hreads⟩ :=
    hmethods _ _ _ (Outline.getElem?_methods_forwarder hm) rfl
  exact ⟨member, r, _, _, _, hmember, hreads.name, hreads.descriptor, hreads.routine,
    hbindings ▸ Forwarder.guards_of_carries hreads.carries⟩

/-- The forwarders of a class with members of every origin. -/
theorem forwarders_guard_adder : ∃ a, generate lengthwise adder = .ok a ∧
    (∀ file, adder.classFile lengthwise = .ok file → file.pool.TextsFit) ∧
    ∃ c, ClassFile.ofBytes a.bytes = .ok c ∧ ∀ (k : Nat) (m : Planned), a.members[k]? = some m →
      ∃ member r call rethrow wrapping, c.methods[2 + k]? = some member ∧
        Routine.ofMember c member = some r ∧
        Forwarder.Guards lengthwise.bindings m r call rethrow wrapping := by
  obtain ⟨a, ha, htexts⟩ := generate_adder
  obtain ⟨c, hread, hall⟩ := forwarders_guard ha htexts
  refine ⟨a, ha, htexts, c, hread, fun k m hm => ?_⟩
  obtain ⟨member, r, call, rethrow, wrapping, hmember, -, -, hroutine, hguards⟩ := hall k m hm
  exact ⟨member, r, call, rethrow, wrapping, hmember, hroutine, hguards⟩

end Proxy

end ProxyForge
