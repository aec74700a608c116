import ProxyForge.Proofs.Exec.Pieces
import ProxyForge.Proofs.Proxy.Ordinary
/-!
# Paths through segments

A body falls into segments: ordinary instructions, and one instruction behind them that may be any.
Ordinary instructions leave locals and monitors alone and catch nothing (`Keeps`), so what is known
in front of a segment tells of every place in it. If each segment comes with what is known in front
of it, a path is followed from segment to segment (`known_of_path`): what is left to look at is the
instruction at the end of each, and the exceptions that are raised there.
-/

namespace ProxyForge

namespace Exec

open Code (Body Label Op)

variable {w : World} {r : Routine} {body : Body} {place : Nat → Nat} {op : Op Nat}
  {s s' s'' : State} {k : Nat}

/-! ## Ordinary instructions -/

/-- The exception that is caught. -/
def Event.exception : Event → Option Value
  | .caught e => some e
  | _ => none

/-- The exceptions that were caught, in their order. -/
def caught (events : List Event) : List Value :=
  events.filterMap Event.exception

theorem caught_append (events more : List Event) :
    caught (events ++ more) = caught events ++ caught more :=
  List.filterMap_append

/-- **What ordinary instructions keep.** -/
structure Keeps (s s' : State) : Prop where
  locals : s'.locals = s.locals
  monitors : s'.monitors = s.monitors
  events : ∃ done, s'.events = s.events ++ done ∧ caught done = []

namespace Keeps

theorem refl (s : State) : Keeps s s :=
  ⟨rfl, rfl, [], (List.append_nil _).symm, rfl⟩

theorem trans (h : Keeps s s') (h' : Keeps s' s'') : Keeps s s'' := by
  obtain ⟨done, hdone, hcaught⟩ := h.events
  obtain ⟨more, hmore, hcaught'⟩ := h'.events
  refine ⟨h'.locals.trans h.locals, h'.monitors.trans h.monitors, done ++ more, ?_, ?_⟩
  · rw [hmore, hdone, List.append_assoc]
  · rw [caught_append, hcaught, hcaught']
    rfl

end Keeps

theorem keeps_of_call {kind : Code.CallKind} {method : Code.MethodRef}
    (h : s.call w kind method = some s') : Keeps s s' := by
  unfold State.call at h
  split at h
  · cases h
  · dsimp only at h
    split at h
    · cases h
    · split at h <;> cases h
      · exact ⟨rfl, rfl, _, rfl, rfl⟩
      · exact ⟨rfl, rfl, _, rfl, rfl⟩

/-- **An ordinary instruction** takes and leaves what lies on the stack. -/
theorem keeps_of_advance (hop : op.isOrdinary) (h : s.advance w op = some s') : Keeps s s' := by
  obtain ⟨locals, stack, things, monitors, events⟩ := s
  cases op with
  | ret _ | throw | jump _ _ | lookupSwitch _ _ | store _ _ | monitorEnter | monitorExit =>
    cases hop
  | null | int _ | string _ | classOf _ | new _ =>
    cases h
    exact ⟨rfl, rfl, [], (List.append_nil _).symm, rfl⟩
  | getStatic f =>
    cases h
    exact ⟨rfl, rfl, _, rfl, rfl⟩
  | invoke kind method => exact keeps_of_call h
  | load kind index =>
    simp only [State.advance] at h
    split at h
    · split at h <;> cases h
      exact ⟨rfl, rfl, [], (List.append_nil _).symm, rfl⟩
    · cases h
  | putStatic f | getField f | cast name =>
    simp only [State.advance] at h
    split at h <;> cases h
    exact ⟨rfl, rfl, _, rfl, rfl⟩
  | putField f =>
    simp only [State.advance] at h
    split at h <;> cases h
    exact ⟨rfl, rfl, _, rfl, rfl⟩
  | pop | dup | newArray element =>
    simp only [State.advance] at h
    split at h
    · split at h <;> cases h
      exact ⟨rfl, rfl, [], (List.append_nil _).symm, rfl⟩
    · cases h
  | arrayLoad | arrayStore =>
    simp only [State.advance] at h
    split at h
    · obtain ⟨v, -, rfl⟩ := Option.map_eq_some_iff.1 h
      exact ⟨rfl, rfl, [], (List.append_nil _).symm, rfl⟩
    · cases h

/-- Ordinary instructions, one behind the other. -/
theorem keeps_of_runOps {ops : List (Op Nat)} (hops : ops.all Op.isOrdinary)
    (h : runOps w ops s = some s') : Keeps s s' := by
  induction ops generalizing s with
  | nil =>
    cases h
    exact .refl _
  | cons op ops ih =>
    rw [List.all_cons, Bool.and_eq_true_iff] at hops
    obtain ⟨t, ht, hrest⟩ := Option.bind_eq_some_iff.1 h
    exact (keeps_of_advance hops.1 ht).trans (ih hops.2 hrest)

/-- An ordinary instruction passes control on. -/
theorem transfer_of_isOrdinary (hop : op.isOrdinary) (pc : Nat) (next : Option Nat) (s : State) :
    transfer w r pc next s op = none := by
  cases op <;> first | rfl | cases hop

/-! ## Segments -/

/-- **A segment**: where it starts, what is known there, ordinary instructions, and the instruction
behind them. -/
structure Segment where
  start : Nat
  entry : State → Prop
  front : List (Op Label)
  last : Op Label

namespace Segment

/-- The position of the last instruction. -/
def stop (g : Segment) : Nat :=
  g.start + g.front.length

/-- The instructions of a segment. -/
def ops (g : Segment) : List (Op Label) :=
  g.front ++ [g.last]

/-- A segment is one of a body. -/
structure Stands (g : Segment) (body : Body) : Prop where
  ordinary : g.front.all Op.isOrdinary
  ops : ∀ (k : Nat) (op : Op Label), g.ops[k]? = some op → body.ops[g.start + k]? = some op

/-- Segments that start one behind the other, from a position on. -/
def Laid : Nat → List Segment → Prop
  | _, [] => True
  | n, g :: segments => g.start = n ∧ Laid (n + g.ops.length) segments

/-- **A place in a segment is reached** from its start. -/
def Reached (w : World) (g : Segment) (k : Nat) (s : State) : Prop :=
  ∃ s₁, g.entry s₁ ∧ runOps w (g.front.take k) s₁ = some s

variable {g : Segment}

theorem getElem?_front (hk : k < g.front.length) : g.ops[k]? = some g.front[k] := by
  rw [ops, List.getElem?_append_left hk, List.getElem?_eq_getElem hk]

theorem Stands.stop_lt (h : g.Stands body) : g.stop < body.ops.length :=
  (List.getElem?_eq_some_iff.1 (h.ops g.front.length g.last List.getElem?_concat_length)).1

theorem Stands.getElem?_stop (h : g.Stands body) : body.ops[g.stop]? = some g.last :=
  h.ops g.front.length g.last List.getElem?_concat_length

/-- **Segments that make up a body** are its segments. -/
theorem stands_of_laid {segments : List Segment} {n : Nat} (hlaid : Laid n segments)
    (hordinary : ∀ g ∈ segments, g.front.all Op.isOrdinary)
    (hops : ∀ (k : Nat) (op : Op Label), (segments.flatMap ops)[k]? = some op →
      body.ops[n + k]? = some op) : ∀ g ∈ segments, g.Stands body := by
  induction segments generalizing n with
  | nil => exact List.forall_mem_nil _
  | cons g segments ih =>
    obtain ⟨hstart, hrest⟩ := hlaid
    refine List.forall_mem_cons.2 ⟨⟨hordinary g List.mem_cons_self, fun k op hk => ?_⟩,
      ih hrest (fun g' hg' => hordinary g' (List.mem_cons_of_mem g hg')) fun k op hk => ?_⟩
    · rw [hstart]
      refine hops k op ?_
      rw [List.flatMap_cons, List.getElem?_append_left (List.getElem?_eq_some_iff.1 hk).1]
      exact hk
    · rw [Nat.add_assoc]
      refine hops _ op ?_
      rw [List.flatMap_cons, List.getElem?_append_right (Nat.le_add_right _ _),
        Nat.add_sub_cancel_left]
      exact hk

/-- **Every instruction belongs to a segment.** -/
theorem exists_of_laid {segments : List Segment} {n : Nat} {op : Op Label} (hlaid : Laid n segments)
    (hop : (segments.flatMap ops)[k]? = some op) :
    ∃ g ∈ segments, ∃ j, g.ops[j]? = some op ∧ n + k = g.start + j := by
  induction segments generalizing n k with
  | nil => cases hop
  | cons g segments ih =>
    obtain ⟨hstart, hrest⟩ := hlaid
    rw [List.flatMap_cons] at hop
    by_cases hk : k < g.ops.length
    · rw [List.getElem?_append_left hk] at hop
      exact ⟨g, List.mem_cons_self, k, hop, by rw [hstart]⟩
    · rw [List.getElem?_append_right (Nat.le_of_not_lt hk)] at hop
      obtain ⟨g', hg', j, hj, hplace⟩ := ih hrest hop
      exact ⟨g', List.mem_cons_of_mem g hg', j, hj, by omega⟩

theorem Reached.keeps (h : g.Stands body) (hreached : g.Reached w k s) :
    ∃ s₁, g.entry s₁ ∧ Keeps s₁ s := by
  obtain ⟨s₁, hentry, hrun⟩ := hreached
  refine ⟨s₁, hentry, keeps_of_runOps ?_ hrun⟩
  exact List.all_eq_true.2 fun op hop => List.all_eq_true.1 h.ordinary op (List.mem_of_mem_take hop)

/-- An ordinary instruction leads to the next place. -/
theorem Reached.step (hcarries : Carries r body place) (h : g.Stands body)
    (hk : k < g.front.length) (hreached : g.Reached w k s) {c : Config}
    (hstep : Exec.step w r (.running (place (g.start + k)) s) = some c) :
    ∃ s', c = .running (place (g.start + (k + 1))) s' ∧ g.Reached w (k + 1) s' := by
  obtain ⟨s₁, hentry, hrun⟩ := hreached
  have hop := h.ops k g.front[k] (getElem?_front hk)
  have hordinary := List.all_eq_true.1 h.ordinary _ (List.getElem_mem hk)
  have hfetch := hcarries.fetch_plain hop (Op.targets_of_isOrdinary hordinary)
  cases hadvance : s.advance w g.front[k] with
  | none =>
    rw [step_transfer hfetch hadvance, transfer_of_isOrdinary hordinary] at hstep
    cases hstep
  | some s' =>
    have hlt : g.start + k + 1 < body.ops.length := by
      have := h.stop_lt
      unfold stop at this
      omega
    rw [if_pos hlt] at hfetch
    cases hstep.symm.trans (step_advance hfetch hadvance)
    refine ⟨s', rfl, s₁, hentry, ?_⟩
    rw [List.take_add_one, List.getElem?_eq_getElem hk]
    exact runOps_of_append hrun (runOps_of_cons hadvance rfl)

/-- An instruction that is not ordinary stands at the end. -/
theorem last_of_fetch (hcarries : Carries r body place) (h : g.Stands body)
    (hk : k ≤ g.front.length) {next : Option Nat}
    (hfetch : r.fetch (place (g.start + k)) = some (op, next)) (htargets : op.targets = [])
    (hop : ¬op.isOrdinary) : k = g.front.length ∧ g.last = op := by
  have hat : ∀ op', g.ops[k]? = some op' → op' = op := fun op' hop' => by
    obtain ⟨placed, hplaced, hsame⟩ := hcarries.fetch _ op' (h.ops k op' hop')
    obtain ⟨rfl, -⟩ := Prod.mk.inj (Option.some.inj (hplaced.symm.trans hfetch))
    cases hsame with
    | same => rfl
    | jump _ | lookupSwitch _ _ _ => cases htargets
  rcases Nat.lt_or_eq_of_le hk with hlt | rfl
  · have hordinary := List.all_eq_true.1 h.ordinary _ (List.getElem_mem hlt)
    rw [hat _ (getElem?_front hlt)] at hordinary
    exact absurd hordinary hop
  · exact ⟨rfl, hat _ List.getElem?_concat_length⟩

end Segment

/-! ## Paths -/

/-- **What is known of a run**: it is at a place in a segment that it has reached, or it has ended
as it should. -/
def Known (w : World) (place : Nat → Nat) (segments : List Segment)
    (leaves : Ending → State → Prop) : Config → Prop
  | .running pc s =>
    ∃ g ∈ segments, ∃ k ≤ g.front.length, pc = place (g.start + k) ∧ g.Reached w k s
  | .ended ending s => leaves ending s

/-- **Segments that no path leaves**: the last instruction of each leads to one of them, and so do
exceptions. -/
structure Closed (w : World) (r : Routine) (body : Body) (place : Nat → Nat)
    (segments : List Segment) (leaves : Ending → State → Prop) : Prop where
  stands : ∀ g ∈ segments, g.Stands body
  last : ∀ g ∈ segments, ∀ s₁ s c, g.entry s₁ → runOps w g.front s₁ = some s →
    step w r (.running (place g.stop) s) = some c → Known w place segments leaves c
  raise : ∀ g ∈ segments, ∀ k ≤ g.front.length, ∀ s e, g.Reached w k s →
    Known w place segments leaves (raise w r (place (g.start + k)) e s)

variable {segments : List Segment} {leaves : Ending → State → Prop} {c c' : Config}

/-- A segment is entered. -/
theorem Known.enter {g : Segment} (hg : g ∈ segments) (hentry : g.entry s) :
    Known w place segments leaves (.running (place g.start) s) :=
  ⟨g, hg, 0, Nat.zero_le _, rfl, s, hentry, rfl⟩

/-- **A move stays in the segments.** -/
theorem known_of_move (hcarries : Carries r body place)
    (h : Closed w r body place segments leaves) (hc : Known w place segments leaves c)
    (hmove : Move w r c c') : Known w place segments leaves c' := by
  cases hmove with
  | step hstep =>
    cases c with
    | ended _ _ => cases hstep
    | running pc s =>
      obtain ⟨g, hg, k, hk, rfl, hreached⟩ := hc
      rcases Nat.lt_or_eq_of_le hk with hlt | rfl
      · obtain ⟨s', rfl, hreached'⟩ := hreached.step hcarries (h.stands g hg) hlt hstep
        exact ⟨g, hg, k + 1, hlt, rfl, hreached'⟩
      · obtain ⟨s₁, hentry, hrun⟩ := hreached
        rw [List.take_length] at hrun
        exact h.last g hg s₁ s c' hentry hrun hstep
  | raise e hpc =>
    obtain ⟨g, hg, k, hk, rfl, hreached⟩ := hc
    exact h.raise g hg k hk _ e hreached

/-- **A path stays in the segments.** -/
theorem known_of_path (hcarries : Carries r body place)
    (h : Closed w r body place segments leaves) (hc : Known w place segments leaves c)
    (hpath : Path w r c c') : Known w place segments leaves c' := by
  induction hpath with
  | refl => exact hc
  | tail _ hmove ih => exact known_of_move hcarries h ih hmove

end Exec

end ProxyForge
