import ProxyForge.Proofs.Exec.Segments
import ProxyForge.Proofs.Proxy.Routines
import ProxyForge.Proofs.Proxy.Transport
/-!
# Monitors are released

The helper of a member of an interface binds a call target once, while it holds the monitor of the
instance. It is followed on every path, where any instruction may raise any exception instead of
taking effect: segment by segment (`Dispatcher.segments`), with what is known in front of each. So
the monitor is held where it should be, and nowhere else (`Dispatcher.releases_of_carries`).
-/

namespace ProxyForge

namespace Proxy

open Code (Block Body FieldRef Handler Label MethodRef Op)
open Exec (Carries Closed Config Ending Event Keeps Known Path Routine Segment State Thing Turns
  Value World caught raise runOps runOps_of_cons setLocal step)

open Boxing (call)

namespace Dispatcher

/-! ## What is in order -/

/-- The call of the target. -/
def invoking (m : Planned) : MethodRef :=
  ⟨"java/lang/invoke/MethodHandle", "invokeExact", m.signature.descriptor, false⟩

/-- **A target is bound**, as far as a run can tell: its field was found not to be `null`, or was
written. -/
inductive Bound (f : FieldRef) (self : Value) : List Event → Prop
  | found {v : Value} {front back : List Event} (hv : v ≠ .null) :
    Bound f self (front ++ [.readField f self v, .tested v] ++ back)
  | kept {v : Value} {front back : List Event} :
    Bound f self (front ++ [.wroteField f self v] ++ back)

/-- **A helper is in order** where it is: what it holds but did not hold at the start is the monitor
of its instance, once at the most. -/
structure InOrder (f : FieldRef) (r : Routine) (ready : Nat) (object : Value) (s₀ : State)
    (pc : Nat) (s : State) : Prop where
  holds : s.monitors = s₀.monitors ∨ s.monitors = object :: s₀.monitors
  /-- The monitor is left while it is held, and is that of the object in the fourth local. -/
  exits : ∀ next, r.fetch pc = some (.monitorExit, next) →
    s.monitors = object :: s₀.monitors ∧ s.locals 3 = some object ∧ ∃ rest, s.stack = object :: rest
  /-- What was caught last is thrown. -/
  rethrows : ∀ next, r.fetch pc = some (.throw, next) →
    ∃ e rest, s.stack = e :: rest ∧ (caught s.events).getLast? = some e
  bound : ready ≤ pc → ∃ done, s.events = s₀.events ++ done ∧ Bound f object done

/-- **A helper releases its monitor**: on every path it is in order, and where it ends, it holds
what it held at the start. It returns only if nothing was caught. -/
structure Releases (thisName : String) (m : Planned) (r : Routine) (ready : Nat) : Prop where
  /-- The target is read at last, -/
  target : ∃ reading next, r.fetch ready = some (.load .reference 0, some reading) ∧
    r.fetch reading = some (.getField (handleField thisName m), next)
  /-- and called nowhere but behind that. -/
  calls : ∀ pc next, r.fetch pc = some (.invoke .virtual (invoking m), next) → ready ≤ pc
  running : ∀ (w : World) (self : Value) (s₀ : State), s₀.locals 0 = some self →
    self.kind = .reference → ∀ pc s, Path w r (.running 0 s₀) (.running pc s) →
      InOrder (handleField thisName m) r ready self s₀ pc s
  ended : ∀ (w : World) (self : Value) (s₀ : State), s₀.locals 0 = some self →
    self.kind = .reference → ∀ ending s, Path w r (.running 0 s₀) (.ended ending s) →
      s.monitors = s₀.monitors ∧
        ∀ v, ending = .returned v → ∃ done, s.events = s₀.events ++ done ∧ caught done = []

variable {m : Planned} {f : FieldRef} {self e v : Value} {s₀ s₁ s s' : State} {w : World}
  {r : Routine} {place : Nat → Nat} {c : Config} {locals : Nat → Option Value}
  {stack rest monitors : List Value} {things : List Thing} {events done : List Event}

theorem Bound.append (h : Bound f self done) (more : List Event) : Bound f self (done ++ more) := by
  cases h with
  | found hv =>
    rw [List.append_assoc _ _ more]
    exact .found hv
  | kept =>
    rw [List.append_assoc _ _ more]
    exact .kept

/-! ## A target is bound -/

theorem turns_pushClass (t : JvmType) : Turns w [Boxing.pushClass t] 0 1 := by
  unfold Boxing.pushClass
  split
  · exact .push (fun _ => rfl) fun _ => ⟨_, rfl⟩
  · exact .push (fun _ => rfl) fun _ => ⟨_, rfl⟩

theorem turns_pushClasses (params : List JvmType) : Turns w (Boxing.pushClasses params) 0 1 := by
  have hcount : ∀ n, Turns w [Boxing.count n] 0 1 := fun n =>
    .push (fun _ => rfl) fun _ => ⟨_, rfl⟩
  refine Turns.flatMap _ (fun x => ?_) ((hcount params.length).append .newArray (Nat.le_refl 1))
  exact ((Turns.dup.append (hcount x.2) (Nat.zero_le _)).append (turns_pushClass x.1)
    (Nat.zero_le _)).append .arrayStore (Nat.le_succ 3)

/-- **A method is found and bound to the receiver**: the target is pushed. -/
theorem turns_bindTarget (m : Planned) : Turns w (bindTarget m) 0 1 := by
  have hstring : ∀ text, Turns w [.string text] 0 1 := fun text =>
    .push (fun _ => rfl) fun _ => ⟨_, rfl⟩
  have hclass : Turns w (Initializer.pushLoadedClass m.declaring) 0 1 :=
    (hstring _).append (.invoke Initializer.parse_loading nofun rfl) (Nat.le_refl 1)
  have hlookup : Turns w [call .static "java/lang/invoke/MethodHandles" "lookup"
      ("()" ++ described lookupClass)] 0 1 := .invoke parse_lookup nofun rfl
  have htype : Turns w [call .static methodType "methodType"
      ("(" ++ described Boxing.classClass ++ "[" ++ described Boxing.classClass ++ ")" ++
        described methodType)] 2 1 := .invoke parse_methodType nofun rfl
  have hfind : Turns w [call .virtual lookupClass "findVirtual"
      ("(" ++ described Boxing.classClass ++ "Ljava/lang/String;" ++ described methodType ++ ")" ++
        described Outline.methodHandle)] 4 1 := .invoke parse_findVirtual nofun rfl
  have hbind : Turns w [call .virtual Outline.methodHandle "bindTo"
      ("(" ++ described Boxing.objectClass ++ ")" ++ described Outline.methodHandle)] 2 1 :=
    .invoke parse_bindTo nofun rfl
  have hfound := ((hlookup.append hclass (Nat.zero_le _)).append
    ((hstring m.signature.name).append (turns_pushClass m.signature.result) (Nat.zero_le _))
    (Nat.zero_le _)).append (turns_pushClasses m.signature.params) (Nat.zero_le _)
  have hload : Turns w [.load .reference 1] 0 1 := .load
  have hbound := ((hfound.append htype (by decide)).append hfind (by decide)).append hload
    (Nat.zero_le _)
  have hall := hbound.append hbind (by decide)
  unfold bindTarget
  simp only [List.append_assoc] at hall ⊢
  exact hall

/-! ## What is known -/

/-- The instance is at its place, and nothing more is held than at the start. -/
structure Free (object : Value) (s₀ s : State) : Prop where
  lies : s.locals 0 = some object
  monitors : s.monitors = s₀.monitors

/-- The monitor of the instance is held. -/
structure Held (object : Value) (s₀ s : State) : Prop where
  lies : s.locals 0 = some object
  kept : s.locals 3 = some object
  monitors : s.monitors = object :: s₀.monitors

/-- Nothing was caught. -/
def Calm (s₀ s : State) : Prop :=
  ∃ done, s.events = s₀.events ++ done ∧ caught done = []

/-- Nothing was caught, and the target is bound. -/
def Settled (f : FieldRef) (self : Value) (s₀ s : State) : Prop :=
  ∃ done, s.events = s₀.events ++ done ∧ caught done = [] ∧ Bound f self done

/-- What was caught last waits in the fifth local. -/
structure Pending (s : State) (e : Value) : Prop where
  waits : s.locals 4 = some e
  kind : e.kind = .reference
  last : (caught s.events).getLast? = some e

theorem Free.keeps (h : Free self s₀ s) (hkeeps : Keeps s s') : Free self s₀ s' :=
  ⟨hkeeps.locals ▸ h.lies, hkeeps.monitors.trans h.monitors⟩

theorem Held.keeps (h : Held self s₀ s) (hkeeps : Keeps s s') : Held self s₀ s' :=
  ⟨hkeeps.locals ▸ h.lies, hkeeps.locals ▸ h.kept, hkeeps.monitors.trans h.monitors⟩

theorem Calm.more (h : Calm s₀ s) (hevents : s'.events = s.events ++ done)
    (hcaught : caught done = []) : Calm s₀ s' := by
  obtain ⟨front, hfront, hcalm⟩ := h
  refine ⟨front ++ done, ?_, ?_⟩
  · rw [hevents, hfront, List.append_assoc]
  · rw [Exec.caught_append, hcalm, hcaught]
    rfl

theorem Settled.more (h : Settled f self s₀ s) (hevents : s'.events = s.events ++ done)
    (hcaught : caught done = []) : Settled f self s₀ s' := by
  obtain ⟨front, hfront, hcalm, hbound⟩ := h
  refine ⟨front ++ done, ?_, ?_, hbound.append done⟩
  · rw [hevents, hfront, List.append_assoc]
  · rw [Exec.caught_append, hcalm, hcaught]
    rfl

theorem Pending.more (h : Pending s e) (hlocals : s'.locals = s.locals)
    (hevents : s'.events = s.events ++ done) (hcaught : caught done = []) : Pending s' e := by
  refine ⟨hlocals ▸ h.waits, h.kind, ?_⟩
  rw [hevents, Exec.caught_append, hcaught, List.append_nil]
  exact h.last

theorem Calm.keeps (h : Calm s₀ s) (hkeeps : Keeps s s') : Calm s₀ s' := by
  obtain ⟨done, hdone, hcaught⟩ := hkeeps.events
  exact h.more hdone hcaught

theorem Settled.keeps (h : Settled f self s₀ s) (hkeeps : Keeps s s') : Settled f self s₀ s' := by
  obtain ⟨done, hdone, hcaught⟩ := hkeeps.events
  exact h.more hdone hcaught

/-! ## Segments -/

/-- How long the code is that binds a target. -/
def bindSize (m : Planned) : Nat :=
  (bindTarget (L := Label) m).length

section segments

variable (m : Planned) (f : FieldRef) (self : Value) (s₀ : State)

/-- The field is read and tested. -/
def askSegment : Segment :=
  ⟨0, fun s => Free self s₀ s ∧ Calm s₀ s, [.load .reference 0, .getField f],
    .jump .ifNonNull readyLabel⟩

/-- The instance is kept as the object whose monitor is held. -/
def keepSegment : Segment :=
  ⟨3, fun s => Free self s₀ s ∧ Calm s₀ s, [.load .reference 0, .dup], .store .reference 3⟩

/-- The monitor is entered. -/
def enterSegment : Segment :=
  ⟨6, fun s => Free self s₀ s ∧ Calm s₀ s ∧ s.locals 3 = some self ∧ ∃ rest, s.stack = self :: rest,
    [], .monitorEnter⟩

/-- The field is read and tested again. -/
def lookSegment : Segment :=
  ⟨7, fun s => Held self s₀ s ∧ Calm s₀ s, [.load .reference 0, .getField f],
    .jump .ifNonNull unlockLabel⟩

/-- The target is bound. -/
def bindSegment : Segment :=
  ⟨10, fun s => Held self s₀ s ∧ Calm s₀ s, .load .reference 0 :: bindTarget m, .putField f⟩

/-- The monitor is left. -/
def unlockSegment : Segment :=
  ⟨12 + bindSize m, fun s => Held self s₀ s ∧ Settled f self s₀ s, [.load .reference 3],
    .monitorExit⟩

/-- Control goes on to the target. -/
def unlockedSegment : Segment :=
  ⟨14 + bindSize m, fun s => Free self s₀ s ∧ Settled f self s₀ s, [], .jump .always readyLabel⟩

/-- An exception is kept. -/
def failedSegment : Segment :=
  ⟨15 + bindSize m, fun s => Held self s₀ s ∧ ∃ e, s.stack = [e] ∧
    (caught s.events).getLast? = some e, [], .store .reference 4⟩

/-- The monitor is left while the exception waits. -/
def releaseSegment : Segment :=
  ⟨16 + bindSize m, fun s => Held self s₀ s ∧ ∃ e, Pending s e, [.load .reference 3], .monitorExit⟩

/-- The exception is thrown. -/
def releasedSegment : Segment :=
  ⟨18 + bindSize m, fun s => Free self s₀ s ∧ ∃ e, Pending s e, [.load .reference 4], .throw⟩

/-- The target is called. -/
def readySegment : Segment :=
  ⟨20 + bindSize m, fun s => Free self s₀ s ∧ Settled f self s₀ s,
    [.load .reference 0, .getField f] ++ Boxing.unpackParams m.signature.params 2 ++
      [.invoke .virtual (invoking m)] ++ Boxing.boxResult m.signature.result,
    .ret (some .reference)⟩

/-- **The segments of a helper.** -/
def segments : List Segment :=
  [askSegment f self s₀, keepSegment self s₀, enterSegment self s₀, lookSegment f self s₀,
    bindSegment m f self s₀, unlockSegment m f self s₀, unlockedSegment m f self s₀,
    failedSegment m self s₀, releaseSegment m self s₀, releasedSegment m self s₀,
    readySegment m f self s₀]

theorem ops_helperBody :
    (helperBody m f).ops = (segments m f self s₀).flatMap Segment.ops := by
  rw [Block.ops_eq (helperBody_lines "" m f)]
  simp [helperStretches, Code.Stretch.blocks, Block.opsOf, askBlock, lockedBlock, readyBlock,
    segments, Segment.ops, askSegment, keepSegment, enterSegment, lookSegment, bindSegment,
    unlockSegment, unlockedSegment, failedSegment, releaseSegment, releasedSegment, readySegment,
    call, invoking, Outline.methodHandle]

theorem laid_segments : Segment.Laid 0 (segments m f self s₀) := by
  simp only [segments, Segment.Laid, Segment.ops, askSegment, keepSegment, enterSegment,
    lookSegment, bindSegment, unlockSegment, unlockedSegment, failedSegment, releaseSegment,
    releasedSegment, readySegment, bindSize, List.length_append, List.length_cons,
    List.length_nil, true_and, and_true]
  omega

/-- **The segments make up the helper.** -/
theorem stands_segments : ∀ g ∈ segments m f self s₀, g.Stands (helperBody m f) := by
  have hready : (readySegment m f self s₀).front.all Op.isOrdinary := by
    rw [readySegment, List.all_append, List.all_append, List.all_append, Boxing.all_boxResult,
      Boxing.all_unpackParams]
    rfl
  refine Segment.stands_of_laid (laid_segments m f self s₀) ?_ fun k op hk => ?_
  · simp only [segments, List.forall_mem_cons]
    exact ⟨rfl, rfl, rfl, rfl, all_bindTarget m, rfl, rfl, rfl, rfl, rfl, hready,
      List.forall_mem_nil _⟩
  · rw [Nat.zero_add, ops_helperBody m f self s₀]
    exact hk

end segments

/-! ## Labels and handlers -/

/-- The positions of labels. -/
def labelAt (m : Planned) (label : Label) : Nat :=
  if label = lockedLabel then 7
  else if label = unlockLabel then 12 + bindSize m
  else if label = unlockedLabel then 14 + bindSize m
  else if label = failedLabel then 15 + bindSize m
  else if label = releasedLabel then 18 + bindSize m
  else 20 + bindSize m

/-- **Where the labels stand.** -/
theorem positions_helperBody (m : Planned) (f : FieldRef) :
    ∀ label ∈ [lockedLabel, unlockLabel, unlockedLabel, failedLabel, releasedLabel, readyLabel],
      (helperBody m f).positions[label]? = some (labelAt m label) := by
  have hnodup : (Block.labelsOf (Code.Stretch.blocks (helperStretches "" m f))).Nodup := by
    change [lockedLabel, unlockLabel, unlockedLabel, failedLabel, releasedLabel, readyLabel].Nodup
    decide
  have hat : ∀ (pre post : List Block) (b : Block) (label : Label),
      Code.Stretch.blocks (helperStretches "" m f) = pre ++ b :: post → b.label = some label →
        Block.size pre = labelAt m label →
          (helperBody m f).positions[label]? = some (labelAt m label) :=
    fun pre post b label hsplit hlabel hsize =>
      hsize ▸ Exec.position_of_split (helperBody_lines "" m f) hnodup hsplit hlabel
  have hsize : (lockedBlock m f).ops.length = bindSize m + 5 := by
    simp only [lockedBlock, bindSize, List.length_append, List.length_cons, List.length_nil]
    omega
  simp only [List.forall_mem_cons]
  refine ⟨hat [_] _ _ _ rfl rfl rfl, hat [_, _] _ _ _ rfl rfl ?_, hat [_, _, _] _ _ _ rfl rfl ?_,
    hat [_, _, _, _] _ _ _ rfl rfl ?_, hat [_, _, _, _, _] _ _ _ rfl rfl ?_,
    hat [_, _, _, _, _, _] _ _ _ rfl rfl ?_, List.forall_mem_nil _⟩
  all_goals simp only [Block.size_cons, hsize]
  · change 7 + (bindSize m + 5 + 0) = 12 + bindSize m
    omega
  · change 7 + (bindSize m + 5 + (2 + 0)) = 14 + bindSize m
    omega
  · change 7 + (bindSize m + 5 + (2 + (1 + 0))) = 15 + bindSize m
    omega
  · change 7 + (bindSize m + 5 + (2 + (1 + (3 + 0)))) = 18 + bindSize m
    omega
  · change 7 + (bindSize m + 5 + (2 + (1 + (3 + (2 + 0))))) = 20 + bindSize m
    omega

variable {k : Nat}

/-- **The exception table of a helper.** -/
theorem handlers_helper (h : Carries r (helperBody m f) place) : r.handlers =
    [⟨place 7, place (14 + bindSize m), place (15 + bindSize m), none⟩,
      ⟨place (15 + bindSize m), place (18 + bindSize m), place (15 + bindSize m), none⟩] := by
  have hall := positions_helperBody m f
  simp only [List.forall_mem_cons] at hall
  obtain ⟨hlocked, -, hunlocked, hfailed, hreleased, -⟩ := hall
  refine (h.handlers_eq (labelAt m) fun g hg => ?_).trans rfl
  simp only [helperBody, List.mem_cons, List.not_mem_nil, or_false] at hg
  rcases hg with rfl | rfl
  · exact ⟨hlocked, hunlocked, hfailed⟩
  · exact ⟨hfailed, hreleased, hfailed⟩

theorem lt_length_helperBody (m : Planned) (f : FieldRef) :
    20 + bindSize m < (helperBody m f).ops.length := by
  have hready := (stands_segments m f .null ⟨fun _ => none, [], [], [], []⟩ _
    (List.mem_of_getElem? (i := 10) rfl)).stop_lt
  exact Nat.lt_of_le_of_lt (Nat.le_add_right _ _) hready

/-- Do the handlers hold the instruction at a position? -/
def Covered (m : Planned) (k : Nat) : Prop :=
  7 ≤ k ∧ k < 14 + bindSize m ∨ 15 + bindSize m ≤ k ∧ k < 18 + bindSize m

instance (m : Planned) (k : Nat) : Decidable (Covered m k) :=
  inferInstanceAs (Decidable (_ ∨ _))

/-- **Where exceptions go**: they are caught while the monitor may be held, and nowhere else. -/
theorem raise_helper (h : Carries r (helperBody m f) place) (hk : k < (helperBody m f).ops.length) :
    raise w r (place k) e s =
      if Covered m k then
        .running (place (15 + bindSize m)) ({ s with stack := [e] }.record (.caught e))
      else .ended (.threw e) s := by
  have hlength := lt_length_helperBody m f
  unfold raise
  rw [handlers_helper h]
  simp only [List.find?_cons, List.find?_nil, World.catches, Bool.and_true,
    h.spans_place (i := 7) (j := 14 + bindSize m) (by omega) (by omega) (Nat.le_of_lt hk),
    h.spans_place (i := 15 + bindSize m) (j := 18 + bindSize m) (by omega) (by omega)
      (Nat.le_of_lt hk)]
  by_cases hfirst : 7 ≤ k ∧ k < 14 + bindSize m
  · rw [decide_eq_true hfirst, if_pos (show Covered m k from .inl hfirst)]
  · by_cases hsecond : 15 + bindSize m ≤ k ∧ k < 18 + bindSize m
    · rw [decide_eq_false hfirst, decide_eq_true hsecond,
        if_pos (show Covered m k from .inr hsecond)]
    · rw [decide_eq_false hfirst, decide_eq_false hsecond,
        if_neg fun hcovered : Covered m k => hcovered.elim hfirst hsecond]

/-! ## The instructions at the ends -/

/-- How a helper may end. -/
def Leaves (s₀ : State) (ending : Ending) (s : State) : Prop :=
  s.monitors = s₀.monitors ∧ ∀ v, ending = .returned v → Calm s₀ s

theorem Calm.found (h : Calm s₀ s₁) (hv : v ≠ .null)
    (hevents : s.events = s₁.events ++ [.readField f self v, .tested v]) : Settled f self s₀ s := by
  obtain ⟨done, hdone, hcaught⟩ := h
  refine ⟨done ++ [.readField f self v, .tested v], ?_, ?_, ?_⟩
  · rw [hevents, hdone, List.append_assoc]
  · rw [Exec.caught_append, hcaught]
    rfl
  · have hbound : Bound f self (done ++ [.readField f self v, .tested v] ++ []) := .found hv
    rwa [List.append_nil] at hbound

theorem Calm.wrote (h : Calm s₀ s₁) (hkeeps : Keeps s₁ s)
    (hevents : s'.events = s.events ++ [.wroteField f self v]) : Settled f self s₀ s' := by
  obtain ⟨done, hdone, hcaught⟩ := h.keeps hkeeps
  refine ⟨done ++ [.wroteField f self v], ?_, ?_, ?_⟩
  · rw [hevents, hdone, List.append_assoc]
  · rw [Exec.caught_append, hcaught]
    rfl
  · have hbound : Bound f self (done ++ [.wroteField f self v] ++ []) := .kept
    rwa [List.append_nil] at hbound

/-- A local is loaded. -/
theorem eq_of_load {index : UInt16} (hlocal : s₁.locals index.toNat = some v)
    (hkind : v.kind = .reference) (hrun : runOps w [.load .reference index] s₁ = some s) :
    s = s₁.push v := by
  obtain ⟨locals, stack, things, monitors, events⟩ := s₁
  cases hrun.symm.trans (runOps_of_cons (Exec.advance_load hlocal hkind) rfl)
  rfl

/-- **The field is read and tested.** -/
theorem exists_tested (h : Carries r (helperBody m f) place) (hkind : self.kind = .reference)
    (hlies : s₁.locals 0 = some self)
    (hrun : runOps w [.load .reference 0, .getField f] s₁ = some s) {label : Label} {j : Nat}
    (hop : (helperBody m f).ops[k]? = some (.jump .ifNonNull label))
    (hlabel : (helperBody m f).positions[label]? = some j)
    (hnext : k + 1 < (helperBody m f).ops.length)
    (hstep : step w r (.running (place k) s) = some c) :
    ∃ v s', c = .running (place (if v = .null then k + 1 else j)) s' ∧ Keeps s₁ s' ∧
      s'.events = s₁.events ++ [.readField f self v, .tested v] := by
  obtain ⟨locals, stack, things, monitors, events⟩ := s₁
  obtain ⟨v, hv⟩ : ∃ v, w.answer events (.held f self) = v := ⟨_, rfl⟩
  cases hrun.symm.trans (runOps_of_cons (Exec.advance_load hlies hkind)
    (runOps_of_cons (Exec.advance_getField v hv) rfl))
  cases hstep.symm.trans (h.step_tests hop hlabel hnext rfl)
  have hevents : events ++ [.readField f self v] ++ [.tested v] =
      events ++ [.readField f self v, .tested v] := List.append_assoc _ _ _
  exact ⟨v, _, rfl, ⟨rfl, rfl, _, hevents, rfl⟩, hevents⟩

/-- **The monitor is left.** -/
theorem exists_left (h : Carries r (helperBody m f) place) (hkind : self.kind = .reference)
    (hheld : Held self s₀ s₁) (hrun : runOps w [.load .reference 3] s₁ = some s)
    (hop : (helperBody m f).ops[k]? = some .monitorExit)
    (hnext : k + 1 < (helperBody m f).ops.length)
    (hstep : step w r (.running (place k) s) = some c) :
    ∃ s', c = .running (place (k + 1)) s' ∧ s'.locals = s₁.locals ∧ s'.monitors = s₀.monitors ∧
      s'.events = s₁.events ++ [.left self] := by
  cases eq_of_load hheld.kept hkind hrun
  cases hstep.symm.trans (h.step_plain hop rfl hnext rfl)
  refine ⟨_, rfl, rfl, ?_, rfl⟩
  change s₁.monitors.erase self = _
  rw [hheld.monitors, List.erase_cons_head]

section ends

variable (h : Carries r (helperBody m f) place) (hkind : self.kind = .reference)

include h hkind

theorem known_ask (hentry : (askSegment f self s₀).entry s₁)
    (hrun : runOps w (askSegment f self s₀).front s₁ = some s)
    (hstep : step w r (.running (place (askSegment f self s₀).stop) s) = some c) :
    Known w place (segments m f self s₀) (Leaves s₀) c := by
  obtain ⟨hfree, hcalm⟩ := hentry
  have hlength := lt_length_helperBody m f
  have hstands := stands_segments m f self s₀ _ (List.mem_of_getElem? (i := 0) rfl)
  have hready := positions_helperBody m f readyLabel (by simp)
  obtain ⟨v, s', rfl, hkeeps, hevents⟩ := exists_tested h hkind hfree.lies hrun
    hstands.getElem?_stop hready (by change 3 < _; omega) hstep
  by_cases hv : v = .null
  · rw [if_pos hv]
    exact Known.enter (g := keepSegment self s₀) (List.mem_of_getElem? (i := 1) rfl)
      ⟨hfree.keeps hkeeps, hcalm.keeps hkeeps⟩
  · rw [if_neg hv]
    exact Known.enter (g := readySegment m f self s₀) (List.mem_of_getElem? (i := 10) rfl)
      ⟨hfree.keeps hkeeps, hcalm.found hv hevents⟩

theorem known_look (hentry : (lookSegment f self s₀).entry s₁)
    (hrun : runOps w (lookSegment f self s₀).front s₁ = some s)
    (hstep : step w r (.running (place (lookSegment f self s₀).stop) s) = some c) :
    Known w place (segments m f self s₀) (Leaves s₀) c := by
  obtain ⟨hheld, hcalm⟩ := hentry
  have hlength := lt_length_helperBody m f
  have hstands := stands_segments m f self s₀ _ (List.mem_of_getElem? (i := 3) rfl)
  have hunlock := positions_helperBody m f unlockLabel (by simp)
  obtain ⟨v, s', rfl, hkeeps, hevents⟩ := exists_tested h hkind hheld.lies hrun
    hstands.getElem?_stop hunlock (by change 10 < _; omega) hstep
  by_cases hv : v = .null
  · rw [if_pos hv]
    exact Known.enter (g := bindSegment m f self s₀) (List.mem_of_getElem? (i := 4) rfl)
      ⟨hheld.keeps hkeeps, hcalm.keeps hkeeps⟩
  · rw [if_neg hv]
    exact Known.enter (g := unlockSegment m f self s₀) (List.mem_of_getElem? (i := 5) rfl)
      ⟨hheld.keeps hkeeps, hcalm.found hv hevents⟩

theorem known_keep (hentry : (keepSegment self s₀).entry s₁)
    (hrun : runOps w (keepSegment self s₀).front s₁ = some s)
    (hstep : step w r (.running (place (keepSegment self s₀).stop) s) = some c) :
    Known w place (segments m f self s₀) (Leaves s₀) c := by
  obtain ⟨hfree, hcalm⟩ := hentry
  have hlength := lt_length_helperBody m f
  have hstands := stands_segments m f self s₀ _ (List.mem_of_getElem? (i := 1) rfl)
  obtain ⟨locals, stack, things, monitors, events⟩ := s₁
  cases hrun.symm.trans (runOps_of_cons (Exec.advance_load hfree.lies hkind)
    (runOps_of_cons (Exec.advance_dup hkind) rfl))
  cases hstep.symm.trans (h.step_plain hstands.getElem?_stop rfl (by change 6 < _; omega)
    (Exec.advance_store hkind))
  have hkept : setLocal locals (3 : UInt16).toNat self 3 = some self :=
    Exec.setLocal_self locals 3 self
  have hlies : setLocal locals (3 : UInt16).toNat self 0 = some self :=
    (Exec.setLocal_of_ne (by decide) (by decide) (by decide)).trans hfree.lies
  exact Known.enter (g := enterSegment self s₀) (List.mem_of_getElem? (i := 2) rfl)
    ⟨⟨hlies, hfree.monitors⟩, hcalm, hkept, _, rfl⟩

omit hkind in
theorem known_enter (hentry : (enterSegment self s₀).entry s₁)
    (hrun : runOps w (enterSegment self s₀).front s₁ = some s)
    (hstep : step w r (.running (place (enterSegment self s₀).stop) s) = some c) :
    Known w place (segments m f self s₀) (Leaves s₀) c := by
  obtain ⟨hfree, hcalm, hkept, rest, hstack⟩ := hentry
  have hlength := lt_length_helperBody m f
  have hstands := stands_segments m f self s₀ _ (List.mem_of_getElem? (i := 2) rfl)
  obtain ⟨locals, stack, things, monitors, events⟩ := s₁
  obtain rfl : stack = self :: rest := hstack
  cases hrun
  cases hstep.symm.trans (h.step_plain hstands.getElem?_stop rfl (by change 7 < _; omega) rfl)
  exact Known.enter (g := lookSegment f self s₀) (List.mem_of_getElem? (i := 3) rfl)
    ⟨⟨hfree.lies, hkept, congrArg (self :: ·) hfree.monitors⟩,
      hcalm.more rfl rfl⟩

/-- The target lies on the stack, and the instance below. -/
theorem known_bind (hentry : (bindSegment m f self s₀).entry s₁)
    (hrun : runOps w (bindSegment m f self s₀).front s₁ = some s)
    (hstep : step w r (.running (place (bindSegment m f self s₀).stop) s) = some c) :
    Known w place (segments m f self s₀) (Leaves s₀) c := by
  obtain ⟨hheld, hcalm⟩ := hentry
  have hlength := lt_length_helperBody m f
  have hstands := stands_segments m f self s₀ _ (List.mem_of_getElem? (i := 4) rfl)
  have hkeeps := Exec.keeps_of_runOps hstands.ordinary hrun
  obtain ⟨t, ht, hbind⟩ := Option.bind_eq_some_iff.1 hrun
  obtain rfl := eq_of_load hheld.lies hkind (runOps_of_cons ht rfl)
  obtain ⟨vs, hone, hstack⟩ := turns_bindTarget m _ s hbind
  obtain ⟨target, rfl⟩ := List.length_eq_one_iff.1 hone
  obtain ⟨locals, stack, things, monitors, events⟩ := s
  obtain rfl : stack = target :: self :: s₁.stack := hstack
  cases hstep.symm.trans (h.step_plain hstands.getElem?_stop rfl
    (by change 10 + (bindSize m + 1) + 1 < _; omega) rfl)
  have hplace : (bindSegment m f self s₀).stop + 1 = (unlockSegment m f self s₀).start := by
    change 10 + (bindSize m + 1) + 1 = 12 + bindSize m
    omega
  rw [hplace]
  exact Known.enter (List.mem_of_getElem? (i := 5) rfl)
    ⟨hheld.keeps (hkeeps.trans ⟨rfl, rfl, [.wroteField f self target], rfl, rfl⟩),
      hcalm.wrote hkeeps rfl⟩

theorem known_unlock (hentry : (unlockSegment m f self s₀).entry s₁)
    (hrun : runOps w (unlockSegment m f self s₀).front s₁ = some s)
    (hstep : step w r (.running (place (unlockSegment m f self s₀).stop) s) = some c) :
    Known w place (segments m f self s₀) (Leaves s₀) c := by
  obtain ⟨hheld, hsettled⟩ := hentry
  have hlength := lt_length_helperBody m f
  have hstands := stands_segments m f self s₀ _ (List.mem_of_getElem? (i := 5) rfl)
  have hplace : (unlockSegment m f self s₀).stop + 1 = (unlockedSegment m f self s₀).start := by
    change 12 + bindSize m + 1 + 1 = 14 + bindSize m
    omega
  obtain ⟨s', rfl, hlocals, hmonitors, hevents⟩ := exists_left h hkind hheld hrun
    hstands.getElem?_stop (by rw [hplace]; change 14 + bindSize m < _; omega) hstep
  rw [hplace]
  exact Known.enter (List.mem_of_getElem? (i := 6) rfl)
    ⟨⟨hlocals ▸ hheld.lies, hmonitors⟩, hsettled.more hevents rfl⟩

omit hkind in
theorem known_unlocked (hentry : (unlockedSegment m f self s₀).entry s₁)
    (hrun : runOps w (unlockedSegment m f self s₀).front s₁ = some s)
    (hstep : step w r (.running (place (unlockedSegment m f self s₀).stop) s) = some c) :
    Known w place (segments m f self s₀) (Leaves s₀) c := by
  have hstands := stands_segments m f self s₀ _ (List.mem_of_getElem? (i := 6) rfl)
  have hready := positions_helperBody m f readyLabel (by simp)
  cases hrun
  cases hstep.symm.trans (h.step_jumps hstands.getElem?_stop hready)
  exact Known.enter (g := readySegment m f self s₀) (List.mem_of_getElem? (i := 10) rfl) hentry

/-- What was caught is kept behind the instance. -/
theorem known_failed (hentry : (failedSegment m self s₀).entry s₁)
    (hrun : runOps w (failedSegment m self s₀).front s₁ = some s)
    (hstep : step w r (.running (place (failedSegment m self s₀).stop) s) = some c) :
    Known w place (segments m f self s₀) (Leaves s₀) c := by
  obtain ⟨hheld, e, hstack, hlast⟩ := hentry
  have hlength := lt_length_helperBody m f
  have hstands := stands_segments m f self s₀ _ (List.mem_of_getElem? (i := 7) rfl)
  obtain ⟨locals, stack, things, monitors, events⟩ := s₁
  obtain rfl : stack = [e] := hstack
  cases hrun
  have hplace : (failedSegment m self s₀).stop + 1 = (releaseSegment m self s₀).start := by
    change 15 + bindSize m + 1 = 16 + bindSize m
    omega
  by_cases hexception : e.kind = .reference
  · cases hstep.symm.trans (h.step_plain hstands.getElem?_stop rfl
      (by rw [hplace]; change 16 + bindSize m < _; omega) (Exec.advance_store hexception))
    have hlies : setLocal locals (4 : UInt16).toNat e 0 = some self :=
      (Exec.setLocal_of_ne (by decide) (by decide) (by decide)).trans hheld.lies
    have hkept : setLocal locals (4 : UInt16).toNat e 3 = some self :=
      Exec.setLocal_front hheld.kept (by rw [hkind]; rfl)
    have hwaits : setLocal locals (4 : UInt16).toNat e 4 = some e := Exec.setLocal_self locals 4 e
    rw [hplace]
    exact Known.enter (List.mem_of_getElem? (i := 8) rfl)
      ⟨⟨hlies, hkept, hheld.monitors⟩, e, hwaits, hexception, hlast⟩
  · -- only objects can be kept
    have hstuck : (⟨locals, [e], things, monitors, events⟩ : State).advance w
        (.store .reference 4) = none := if_neg hexception
    rw [Exec.step_transfer (h.fetch_plain hstands.getElem?_stop rfl) hstuck] at hstep
    cases hstep

theorem known_release (hentry : (releaseSegment m self s₀).entry s₁)
    (hrun : runOps w (releaseSegment m self s₀).front s₁ = some s)
    (hstep : step w r (.running (place (releaseSegment m self s₀).stop) s) = some c) :
    Known w place (segments m f self s₀) (Leaves s₀) c := by
  obtain ⟨hheld, e, hpending⟩ := hentry
  have hlength := lt_length_helperBody m f
  have hstands := stands_segments m f self s₀ _ (List.mem_of_getElem? (i := 8) rfl)
  have hplace : (releaseSegment m self s₀).stop + 1 = (releasedSegment m self s₀).start := by
    change 16 + bindSize m + 1 + 1 = 18 + bindSize m
    omega
  obtain ⟨s', rfl, hlocals, hmonitors, hevents⟩ := exists_left h hkind hheld hrun
    hstands.getElem?_stop (by rw [hplace]; change 18 + bindSize m < _; omega) hstep
  rw [hplace]
  exact Known.enter (List.mem_of_getElem? (i := 9) rfl)
    ⟨⟨hlocals ▸ hheld.lies, hmonitors⟩, e, hpending.more hlocals hevents rfl⟩

omit hkind in
theorem known_released (hentry : (releasedSegment m self s₀).entry s₁)
    (hrun : runOps w (releasedSegment m self s₀).front s₁ = some s)
    (hstep : step w r (.running (place (releasedSegment m self s₀).stop) s) = some c) :
    Known w place (segments m f self s₀) (Leaves s₀) c := by
  obtain ⟨hfree, e, hpending⟩ := hentry
  have hstands := stands_segments m f self s₀ _ (List.mem_of_getElem? (i := 9) rfl)
  cases eq_of_load hpending.waits hpending.kind hrun
  have huncovered : ¬Covered m (releasedSegment m self s₀).stop := by
    change ¬Covered m (18 + bindSize m + 1)
    unfold Covered
    omega
  rw [h.step_throws hstands.getElem?_stop rfl, raise_helper h hstands.stop_lt, if_neg huncovered]
    at hstep
  cases hstep
  exact ⟨hfree.monitors, nofun⟩

omit hkind in
theorem known_ready (hentry : (readySegment m f self s₀).entry s₁)
    (hrun : runOps w (readySegment m f self s₀).front s₁ = some s)
    (hstep : step w r (.running (place (readySegment m f self s₀).stop) s) = some c) :
    Known w place (segments m f self s₀) (Leaves s₀) c := by
  obtain ⟨hfree, hsettled⟩ := hentry
  have hstands := stands_segments m f self s₀ _ (List.mem_of_getElem? (i := 10) rfl)
  have hkeeps := Exec.keeps_of_runOps hstands.ordinary hrun
  obtain ⟨done, hdone, hcaught, -⟩ := hsettled.keeps hkeeps
  rw [Exec.step_transfer (h.fetch_plain hstands.getElem?_stop rfl) rfl] at hstep
  have hended : ∃ ending, c = .ended ending s := by
    simp only [readySegment, Exec.transfer] at hstep
    split at hstep
    · split at hstep <;> cases hstep
      exact ⟨_, rfl⟩
    · cases hstep
  obtain ⟨ending, rfl⟩ := hended
  exact ⟨(hfree.keeps hkeeps).monitors, fun _ _ => ⟨done, hdone, hcaught⟩⟩

end ends

/-! ## Every path -/

/-- **What is held at a place of a segment**: the monitor, where exceptions are caught, and nothing
where they are not. -/
inductive Holds (m : Planned) (self : Value) (s₀ : State) (g : Segment) (k : Nat) : Prop
  | free (hcovered : ¬Covered m (g.start + k)) (hentry : ∀ s, g.entry s → Free self s₀ s)
  | held (hcovered : Covered m (g.start + k)) (hentry : ∀ s, g.entry s → Held self s₀ s)

theorem holds_segments (m : Planned) (f : FieldRef) (self : Value) (s₀ : State) :
    ∀ g ∈ segments m f self s₀, ∀ k ≤ g.front.length, Holds m self s₀ g k := by
  simp only [segments, List.forall_mem_cons]
  refine ⟨fun k hk => .free ?_ fun _ h => h.1, fun k hk => .free ?_ fun _ h => h.1,
    fun k hk => .free ?_ fun _ h => h.1, fun k hk => .held ?_ fun _ h => h.1,
    fun k hk => .held ?_ fun _ h => h.1, fun k hk => .held ?_ fun _ h => h.1,
    fun k hk => .free ?_ fun _ h => h.1, fun k hk => .held ?_ fun _ h => h.1,
    fun k hk => .held ?_ fun _ h => h.1, fun k hk => .free ?_ fun _ h => h.1,
    fun k hk => .free ?_ fun _ h => h.1, List.forall_mem_nil _⟩
  all_goals
    simp only [Covered, askSegment, keepSegment, enterSegment, lookSegment, bindSegment,
      unlockSegment, unlockedSegment, failedSegment, releaseSegment, releasedSegment, readySegment,
      bindSize, List.length_cons, List.length_nil] at hk ⊢
    omega

/-- **No path leaves the segments.** -/
theorem closed_segments (h : Carries r (helperBody m f) place) (hkind : self.kind = .reference) :
    Closed w r (helperBody m f) place (segments m f self s₀) (Leaves s₀) := by
  have hstands := stands_segments m f self s₀
  refine ⟨hstands, ?_, fun g hg k hk s e hreached => ?_⟩
  · simp only [segments, List.forall_mem_cons]
    exact ⟨fun _ _ _ => known_ask h hkind, fun _ _ _ => known_keep h hkind,
      fun _ _ _ => known_enter h, fun _ _ _ => known_look h hkind,
      fun _ _ _ => known_bind h hkind, fun _ _ _ => known_unlock h hkind,
      fun _ _ _ => known_unlocked h, fun _ _ _ => known_failed h hkind,
      fun _ _ _ => known_release h hkind, fun _ _ _ => known_released h,
      fun _ _ _ => known_ready h, List.forall_mem_nil _⟩
  · obtain ⟨s₁, hentry, hkeeps⟩ := hreached.keeps (hstands g hg)
    have hlt : g.start + k < (helperBody m f).ops.length :=
      Nat.lt_of_le_of_lt (Nat.add_le_add_left hk _) (hstands g hg).stop_lt
    rw [raise_helper h hlt]
    cases holds_segments m f self s₀ g hg k hk with
    | free hcovered hfree =>
      rw [if_neg hcovered]
      exact ⟨((hfree s₁ hentry).keeps hkeeps).monitors, nofun⟩
    | held hcovered hheld =>
      rw [if_pos hcovered]
      have hthere := (hheld s₁ hentry).keeps hkeeps
      refine Known.enter (g := failedSegment m self s₀) (List.mem_of_getElem? (i := 7) rfl)
        ⟨⟨hthere.lies, hthere.kept, hthere.monitors⟩, e, rfl, ?_⟩
      change (caught (s.events ++ [.caught e])).getLast? = some e
      rw [Exec.caught_append]
      exact List.getLast?_concat

/-- **Every path is known.** -/
theorem known_helper (h : Carries r (helperBody m f) place) (hkind : self.kind = .reference)
    (hlies : s₀.locals 0 = some self) (hpath : Path w r (.running 0 s₀) c) :
    Known w place (segments m f self s₀) (Leaves s₀) c := by
  refine Exec.known_of_path h (closed_segments h hkind) ?_ hpath
  have hstart : Known w place (segments m f self s₀) (Leaves s₀) (.running (place 0) s₀) :=
    Known.enter (g := askSegment f self s₀) List.mem_cons_self
      ⟨⟨hlies, rfl⟩, [], (List.append_nil _).symm, rfl⟩
  rwa [h.first] at hstart

/-! ## Where the monitor is left, and what is thrown -/

theorem monitorExit_segments (m : Planned) (f : FieldRef) (self : Value) (s₀ : State) :
    ∀ g ∈ segments m f self s₀, g.last = .monitorExit →
      g.front = [.load .reference 3] ∧ ∀ s, g.entry s → Held self s₀ s := by
  simp only [segments, List.forall_mem_cons]
  refine ⟨fun h => ?_, fun h => ?_, fun h => ?_, fun h => ?_, fun h => ?_,
    fun _ => ⟨rfl, fun _ h => h.1⟩, fun h => ?_, fun h => ?_, fun _ => ⟨rfl, fun _ h => h.1⟩,
    fun h => ?_, fun h => ?_, List.forall_mem_nil _⟩ <;>
  · cases h

theorem throw_segments (m : Planned) (f : FieldRef) (self : Value) (s₀ : State) :
    ∀ g ∈ segments m f self s₀, g.last = .throw →
      g.front = [.load .reference 4] ∧ ∀ s, g.entry s → ∃ e, Pending s e := by
  simp only [segments, List.forall_mem_cons]
  refine ⟨fun h => ?_, fun h => ?_, fun h => ?_, fun h => ?_, fun h => ?_, fun h => ?_,
    fun h => ?_, fun h => ?_, fun h => ?_, fun _ => ⟨rfl, fun _ h => h.2⟩, fun h => ?_,
    List.forall_mem_nil _⟩ <;>
  · cases h

/-- Behind all other segments the target is bound. -/
theorem ready_segments (m : Planned) (f : FieldRef) (self : Value) (s₀ : State) :
    ∀ g ∈ segments m f self s₀, ∀ k ≤ g.front.length, 20 + bindSize m ≤ g.start + k →
      ∀ s, g.entry s → Settled f self s₀ s := by
  simp only [segments, List.forall_mem_cons]
  refine ⟨fun k hk hready => absurd hready ?_, fun k hk hready => absurd hready ?_,
    fun k hk hready => absurd hready ?_, fun k hk hready => absurd hready ?_,
    fun k hk hready => absurd hready ?_, fun k hk hready => absurd hready ?_,
    fun k hk hready => absurd hready ?_, fun k hk hready => absurd hready ?_,
    fun k hk hready => absurd hready ?_, fun k hk hready => absurd hready ?_,
    fun _ _ _ _ h => h.2, List.forall_mem_nil _⟩
  all_goals
    simp only [askSegment, keepSegment, enterSegment, lookSegment, bindSegment, unlockSegment,
      unlockedSegment, failedSegment, releaseSegment, releasedSegment, bindSize, List.length_cons,
      List.length_nil] at hk ⊢
    omega

/-- **A helper is in order wherever a path leads.** -/
theorem inOrder_of_path (h : Carries r (helperBody m f) place) (hkind : self.kind = .reference)
    (hlies : s₀.locals 0 = some self) {pc : Nat}
    (hpath : Path w r (.running 0 s₀) (.running pc s)) :
    InOrder f r (place (20 + bindSize m)) self s₀ pc s := by
  obtain ⟨g, hg, k, hk, rfl, hreached⟩ := known_helper h hkind hlies hpath
  have hstands := stands_segments m f self s₀ g hg
  obtain ⟨s₁, hentry, hkeeps⟩ := hreached.keeps hstands
  refine ⟨?_, fun next hfetch => ?_, fun next hfetch => ?_, fun hready => ?_⟩
  · cases holds_segments m f self s₀ g hg k hk with
    | free _ hfree => exact .inl ((hfree s₁ hentry).keeps hkeeps).monitors
    | held _ hheld => exact .inr ((hheld s₁ hentry).keeps hkeeps).monitors
  · obtain ⟨rfl, hlast⟩ := Segment.last_of_fetch h hstands hk hfetch rfl Bool.false_ne_true
    obtain ⟨hfront, hheld⟩ := monitorExit_segments m f self s₀ g hg hlast
    obtain ⟨s₁, hentry, hrun⟩ := hreached
    rw [List.take_length, hfront] at hrun
    cases eq_of_load (hheld s₁ hentry).kept hkind hrun
    exact ⟨(hheld s₁ hentry).monitors, (hheld s₁ hentry).kept, _, rfl⟩
  · obtain ⟨rfl, hlast⟩ := Segment.last_of_fetch h hstands hk hfetch rfl Bool.false_ne_true
    obtain ⟨hfront, hpending⟩ := throw_segments m f self s₀ g hg hlast
    obtain ⟨s₁, hentry, hrun⟩ := hreached
    obtain ⟨e, he⟩ := hpending s₁ hentry
    rw [List.take_length, hfront] at hrun
    cases eq_of_load he.waits he.kind hrun
    exact ⟨e, _, rfl, he.last⟩
  · have hlength := lt_length_helperBody m f
    have hlt : g.start + k < (helperBody m f).ops.length :=
      Nat.lt_of_le_of_lt (Nat.add_le_add_left hk _) hstands.stop_lt
    have hbehind := (h.place_le_iff (Nat.le_of_lt hlength) (Nat.le_of_lt hlt)).1 hready
    obtain ⟨done, hdone, -, hbound⟩ :=
      (ready_segments m f self s₀ g hg k hk hbehind s₁ hentry).keeps hkeeps
    exact ⟨done, hdone, hbound⟩

/-! ## Where the target is called -/

theorem pushClass_ne_invoke (t : JvmType) (kind : Code.CallKind) (method : MethodRef) :
    Boxing.pushClass (L := Label) t ≠ .invoke kind method := by
  unfold Boxing.pushClass
  split <;> nofun

theorem ne_invoke_of_mem_pushClasses {params : List JvmType} {op : Op Label}
    (hop : op ∈ Boxing.pushClasses params) (kind : Code.CallKind) (method : MethodRef) :
    op ≠ .invoke kind method := by
  unfold Boxing.pushClasses Boxing.count at hop
  simp only [List.mem_cons, List.mem_flatMap, List.not_mem_nil, or_false] at hop
  rcases hop with rfl | rfl | ⟨x, -, rfl | rfl | rfl | rfl⟩
  · nofun
  · nofun
  · nofun
  · nofun
  · exact pushClass_ne_invoke _ kind method
  · nofun

theorem ne_invoking_of_mem_bindTarget {op : Op Label} (hop : op ∈ bindTarget m) :
    op ≠ .invoke .virtual (invoking m) := by
  unfold bindTarget Initializer.pushLoadedClass call at hop
  simp only [List.mem_append, List.mem_cons, List.not_mem_nil, or_false] at hop
  rcases hop with (((rfl | rfl | rfl) | rfl | rfl) | hop) | rfl | rfl | rfl | rfl
  · nofun
  · nofun
  · nofun
  · nofun
  · exact pushClass_ne_invoke _ _ _
  · exact ne_invoke_of_mem_pushClasses hop _ _
  · nofun
  · simp [invoking, lookupClass, Outline.methodHandle]
  · nofun
  · simp [invoking]

/-- **The target is called behind the other segments only.** -/
theorem le_of_invoking (hop : (helperBody m f).ops[k]? = some (.invoke .virtual (invoking m))) :
    20 + bindSize m ≤ k := by
  have hfront : ∀ g ∈ segments m f .null ⟨fun _ => none, [], [], [], []⟩,
      .invoke .virtual (invoking m) ∈ g.ops → 20 + bindSize m ≤ g.start := by
    simp only [segments, List.forall_mem_cons]
    refine ⟨fun h => ?_, fun h => ?_, fun h => ?_, fun h => ?_, fun h => absurd h ?_, fun h => ?_,
      fun h => ?_, fun h => ?_, fun h => ?_, fun h => ?_, fun _ => Nat.le_refl _,
      List.forall_mem_nil _⟩
    case refine_5 =>
      have hbind : .invoke .virtual (invoking m) ∉ bindTarget (L := Label) m := fun hop =>
        ne_invoking_of_mem_bindTarget hop rfl
      simpa [bindSegment, Segment.ops] using hbind
    all_goals
      simp [askSegment, keepSegment, enterSegment, lookSegment, unlockSegment, unlockedSegment,
        failedSegment, releaseSegment, releasedSegment, Segment.ops] at h
  rw [ops_helperBody m f .null ⟨fun _ => none, [], [], [], []⟩] at hop
  obtain ⟨g, hg, j, hj, hk⟩ := Segment.exists_of_laid (laid_segments m f _ _) hop
  have hstart := hfront g hg (List.mem_of_getElem? hj)
  omega

/-- **A helper releases its monitor.** -/
theorem releases_of_carries {thisName : String}
    (h : Carries r (helperBody m (handleField thisName m)) place) :
    Releases thisName m r (place (20 + bindSize m)) := by
  have hlength := lt_length_helperBody m (handleField thisName m)
  have hstands := stands_segments m (handleField thisName m) .null ⟨fun _ => none, [], [], [], []⟩ _
    (List.mem_of_getElem? (i := 10) rfl)
  refine ⟨?_, fun pc next hfetch => ?_, fun w self s₀ hlies hkind pc s hpath =>
    inOrder_of_path h hkind hlies hpath, fun w self s₀ hlies hkind ending s hpath =>
    known_helper h hkind hlies hpath⟩
  · have hload : (helperBody m (handleField thisName m)).ops[20 + bindSize m]? =
        some (.load .reference 0) := hstands.ops 0 _ rfl
    have hget : (helperBody m (handleField thisName m)).ops[20 + bindSize m + 1]? =
        some (.getField (handleField thisName m)) := hstands.ops 1 _ rfl
    have hfirst := h.fetch_plain hload rfl
    rw [if_pos (List.getElem?_eq_some_iff.1 hget).1] at hfirst
    exact ⟨_, _, hfirst, h.fetch_plain hget rfl⟩
  · obtain ⟨k, hk, rfl⟩ := h.only pc (by rw [hfetch]; rfl)
    obtain ⟨placed, hplaced, hsame⟩ := h.fetch k _ (List.getElem?_eq_getElem hk)
    obtain ⟨rfl, -⟩ := Prod.mk.inj (Option.some.inj (hplaced.symm.trans hfetch))
    refine h.place_le (le_of_invoking ((List.getElem?_eq_getElem hk).trans (congrArg some ?_)))
      (Nat.le_of_lt hk)
    generalize (helperBody m (handleField thisName m)).ops[k] = op at hsame
    cases hsame
    rfl

/-- A member of an interface has a helper. -/
theorem exists_helper (o : Outline) (horigin : m.origin = .interface) :
    ∃ draft, helper o m = some draft := by
  unfold helper Outline.targetField Planned.targetMethod Planned.targetField Planned.ifInterface
  rw [horigin]
  exact ⟨_, rfl⟩

end Dispatcher

/-! ## Generated classes -/

variable {g : Generator} {blueprint : Blueprint} {a : Artifact}

/-- **Monitors are released.** In a generated class each member of an interface has a helper. On
every path through it, where any instruction may raise any exception, it holds the monitor of its
instance once at the most, leaves it only while it holds it, and has left it when it ends. What was
caught last is thrown again, and the call target is used only where it is bound. -/
theorem monitors_released (h : generate g blueprint = .ok a)
    (htexts : ∀ file, blueprint.classFile g = .ok file → file.pool.TextsFit) :
    ∃ c, ClassFile.ofBytes a.bytes = .ok c ∧
      ∀ m ∈ a.members, m.origin = .interface → ∃ member r ready, member ∈ c.methods ∧
        c.memberName member = .ok ("invokeTarget" ++ toString m.slot) ∧
        c.memberDescriptor member =
          .ok "(Ljava/lang/Object;[Ljava/lang/Object;)Ljava/lang/Object;" ∧
        Routine.ofMember c member = some r ∧
        Dispatcher.Releases (Name.toInternal blueprint.name) m r ready := by
  obtain ⟨o, c, houtline, hmembers, hread, -, -, hmethods⟩ := exists_routines h htexts
  obtain ⟨-, -, -, hname, -⟩ := outline_eq_ok houtline
  rw [hmembers, ← hname]
  refine ⟨c, hread, fun m hm horigin => ?_⟩
  obtain ⟨draft, hdraft⟩ := Dispatcher.exists_helper o horigin
  obtain ⟨-, hdraftName, hdescriptor, hbody⟩ := Dispatcher.helper_eq_some hdraft
  obtain ⟨k, hk⟩ := List.mem_iff_getElem?.1 (Outline.mem_methods_helper hm hdraft)
  obtain ⟨member, r, place, hmember, hreads⟩ := hmethods k draft _ hk hbody
  exact ⟨member, r, _, List.mem_of_getElem? hmember, hreads.name.trans (congrArg _ hdraftName),
    hreads.descriptor.trans (congrArg _ hdescriptor), hreads.routine,
    Dispatcher.releases_of_carries hreads.carries⟩

/-- A class with members of every origin. -/
theorem monitors_released_adder : ∃ a, generate lengthwise adder = .ok a ∧
    (∀ file, adder.classFile lengthwise = .ok file → file.pool.TextsFit) ∧
    ∃ c member r ready, ∃ m ∈ a.members, m.origin = .interface ∧
      ClassFile.ofBytes a.bytes = .ok c ∧ member ∈ c.methods ∧
      c.memberName member = .ok ("invokeTarget" ++ toString m.slot) ∧
      Routine.ofMember c member = some r ∧
      Dispatcher.Releases "demo/Adder$" m r ready := by
  obtain ⟨a, ha, htexts⟩ := generate_adder
  obtain ⟨m, hm, horigin⟩ : ∃ m ∈ a.members, m.origin = .interface := by
    rw [members_adder ha]
    decide +kernel
  obtain ⟨c, hread, hall⟩ := monitors_released ha htexts
  obtain ⟨member, r, ready, hmember, hmemberName, -, hroutine, hreleases⟩ := hall m hm horigin
  rw [toInternal_adder] at hreleases
  exact ⟨a, ha, htexts, c, member, r, ready, m, hm, horigin, hread, hmember, hmemberName, hroutine,
    hreleases⟩

end Proxy

end ProxyForge
