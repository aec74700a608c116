import ProxyForge.Proofs.Inference.Fixpoint
/-!
# Typings and searches

A run never leaves a typing (`Context.Typing.run`). What a search has found is a typing
(`Search.Inferred.typing`), so runs stay below it; and it lies below every other typing
(`Search.infer_of_typing`), on which a search cannot fail.
-/

namespace ProxyForge

namespace Code

open SlotType (top)
open Outcome

variable {c : Context} {entry : TypeState} {known : Nat → TypeState}

/-! ## Runs -/

namespace Context

/-- Where control arrives there is an instruction. -/
theorem Arrives.lt_size (hc : c.Valid) (hin : c.StaysInside) {i j : Nat}
    {before after t : TypeState} (h : c.Arrives i before after j t) : j < c.ops.size := by
  cases h with
  | jump hop hj => exact hc.target_lt _ _ hop _ hj
  | next hop hu => exact hin _ _ hop hu
  | raisedBefore hg => exact hc.handler_lt _ hg
  | raisedAfter hg => exact hc.handler_lt _ hg

/-- Where an instruction leads does not depend on the states. -/
theorem Leads.arrives {i j : Nat} (h : c.Leads i j) (before after : TypeState) :
    ∃ t, c.Arrives i before after j t := by
  obtain ⟨_, _, _, h⟩ := h
  cases h with
  | jump hop hj => exact ⟨_, .jump hop hj⟩
  | next hop hu => exact ⟨_, .next hop hu⟩
  | raisedBefore hg hi => exact ⟨_, .raisedBefore hg hi⟩
  | raisedAfter hg hi => exact ⟨_, .raisedAfter hg hi⟩

/-- Control stays among the instructions. -/
theorem Reachable.lt_size (hc : c.Valid) (hin : c.StaysInside) (hsize : 0 < c.ops.size) {i : Nat}
    (hi : c.Reachable i) : i < c.ops.size := by
  unfold Reachable at hi
  induction hi with
  | refl => exact hsize
  | tail _ hleads _ =>
    obtain ⟨_, _, _, h⟩ := hleads
    exact h.lt_size hc hin

namespace Typing

/-- **One step below a typing**: the instruction runs, and what arrives is below the typing
again. -/
theorem arrives_le (hk : c.Typing entry known) {i j : Nat} {s after t : TypeState} {op : Op Nat}
    (hop : c.ops[i]? = some op) (hs : s.Paired) (hle : s ≤ known i)
    (hstep : s.step c.shape (c.offsetAt i) op = .ok after) (h : c.Arrives i s after j t)
    (hj : j < c.ops.size) : t ≤ known j := by
  have hi : i < c.ops.size := (Array.getElem?_eq_some_iff.1 hop).1
  obtain ⟨after', hstep', hall⟩ := hk.step i op hop
  obtain ⟨after₀, hstep₀, hafter⟩ := TypeState.step_mono hle hs (hk.stack i hi) hstep'
  cases hstep.symm.trans hstep₀
  obtain ⟨t', ht', hle'⟩ := h.mono hle hafter
  exact le_trans hle' (hall j t' ht' hj)

/-- **A run stays below a typing**, wherever it goes. -/
theorem run (hk : c.Typing entry known) (hc : c.Valid) (hin : c.StaysInside)
    (hsize : 0 < c.ops.size) (hentry : entry.Paired) {now : Config} (h : c.Runs entry now) :
    now.position < c.ops.size ∧ now.state.Paired ∧ now.state ≤ known now.position := by
  unfold Runs at h
  induction h with
  | refl => exact ⟨hsize, hentry, hk.entry_le⟩
  | tail _ hmove ih =>
    obtain ⟨-, hpaired, hle⟩ := ih
    cases hmove with
    | step hop hstep harrives =>
      have hj := harrives.lt_size hc hin
      exact ⟨hj, harrives.paired hc hpaired (hpaired.step hstep),
        hk.arrives_le hop hpaired hle hstep harrives hj⟩

/-- **A run never fails**: the instruction that it comes to runs on its state. -/
theorem exists_step (hk : c.Typing entry known) {i : Nat} {s : TypeState} {op : Op Nat}
    (hop : c.ops[i]? = some op) (hs : s.Paired) (hle : s ≤ known i) :
    ∃ after after', s.step c.shape (c.offsetAt i) op = .ok after ∧
      (known i).step c.shape (c.offsetAt i) op = .ok after' ∧ after ≤ after' := by
  have hi : i < c.ops.size := (Array.getElem?_eq_some_iff.1 hop).1
  obtain ⟨after', hstep', -⟩ := hk.step i op hop
  obtain ⟨after, hstep, hafter⟩ := TypeState.step_mono hle hs (hk.stack i hi) hstep'
  exact ⟨after, after', hstep, hstep', hafter⟩

end Typing

end Context

namespace Search

variable {bound : Nat} {s s' : Search} {i j : Nat} {t before after : TypeState} {op : Op Nat}

/-! ## A search that ended -/

/-- What is known at a position, nothing of interest where nothing is. -/
def knownAt (s : Search) (i : Nat) : TypeState :=
  (s.stateAt i).getD default

theorem knownAt_of_stateAt (h : s.stateAt i = some t) : s.knownAt i = t := by
  rw [knownAt, h]
  rfl

namespace Inferred

theorem settled (h : Inferred c bound entry s) (hop : c.ops[i]? = some op) :
    ∃ after, Settled c s i (s.knownAt i) op after := by
  obtain ⟨t, op', after, ht, hsettled⟩ := h.known i (Array.getElem?_eq_some_iff.1 hop).1
  cases hop.symm.trans hsettled.op_eq
  rw [knownAt_of_stateAt ht]
  exact ⟨after, hsettled⟩

theorem admits (h : Inferred c bound entry s) (hi : i < c.ops.size) :
    Admits c bound s i (s.knownAt i) := by
  obtain ⟨t, _, _, ht, -⟩ := h.known i hi
  rw [knownAt_of_stateAt ht]
  exact h.shape.admits i t ht

/-- The stack of what is known is lower than there are instructions. -/
theorem height_lt (h : Inferred c bound entry s) (hi : i < c.ops.size) :
    (s.knownAt i).stack.length < c.ops.size := by
  obtain ⟨t, _, _, ht, -⟩ := h.known i hi
  rw [knownAt_of_stateAt ht]
  exact lt_of_lt_of_le (h.shape.height i t ht) (card_discovered_le c s)

/-- **What a search has found is a typing.** -/
theorem typing (h : Inferred c bound entry s) : c.Typing entry s.knownAt where
  entry_le := by
    obtain ⟨t, ht, hle⟩ := h.entered
    rwa [knownAt_of_stateAt ht]
  step i op hop := by
    obtain ⟨after, hsettled⟩ := h.settled hop
    refine ⟨after, hsettled.step, fun j t ht _ => ?_⟩
    obtain ⟨t', ht', hle⟩ := hsettled.delivered j t ht
    rwa [knownAt_of_stateAt ht']
  stack i hi := (h.admits hi).paired.stack
  wide i hi k hk := (h.admits hi).paired.slotAt_succ hk

theorem staysInside (h : Inferred c bound entry s) : c.StaysInside := by
  intro i op hop hu
  obtain ⟨after, hsettled⟩ := h.settled hop
  exact hsettled.inside hu

theorem reachable (h : Inferred c bound entry s) (hi : i < c.ops.size) : c.Reachable i :=
  (h.admits hi).reachable

end Inferred

/-! ## A search below a typing -/

/-- All that a search knows lies below a typing. -/
def Under (known : Nat → TypeState) (s : Search) : Prop :=
  ∀ i t, s.stateAt i = some t → t ≤ known i

theorem under_note (hu : Under known s) (hj : j < s.states.size) (ht : t ≤ known j) :
    Under known (s.note j t) := by
  intro i u hi
  rw [stateAt_note hj] at hi
  by_cases hij : i = j
  · rw [if_pos hij] at hi
    cases hi
    rwa [hij]
  · rw [if_neg hij] at hi
    exact hu i u hi

theorem under_enqueue (hu : Under known s) : Under known (s.enqueue j) := by
  intro i u hi
  rw [stateAt_enqueue] at hi
  exact hu i u hi

/-- **What arrives below a typing merges**, and the result is below it. -/
theorem flow_under (hu : Under known s) (hj : j < s.states.size) (ht : t ≤ known j)
    (htop : top ∉ (known j).stack) : ∃ s', s.flow c j t = .ok s' ∧ Under known s' := by
  unfold flow
  rcases hknown : s.stateAt j with - | u
  · exact ⟨_, rfl, under_enqueue (under_note hu hj ht)⟩
  · obtain ⟨m, changed, hmerge⟩ :=
      TypeState.exists_merge (c.offsetAt j) (hu j u hknown) ht htop
    have hm := under_note hu hj (TypeState.merge_le hmerge (hu j u hknown) ht)
    simp only [hmerge]
    cases changed with
    | true => exact ⟨_, rfl, under_enqueue hm⟩
    | false => exact ⟨_, rfl, hm⟩

theorem size_states_flow (h : s.flow c j t = .ok s') : s'.states.size = s.states.size := by
  rcases flow_eq_ok h with ⟨-, rfl⟩ | ⟨_, m, changed, -, -, rfl⟩
  · rw [size_states_enqueue]
    exact Array.size_setIfInBounds
  · split
    · rw [size_states_enqueue]
      exact Array.size_setIfInBounds
    · exact Array.size_setIfInBounds

/-- A fold of steps that each keep a property and never fail keeps it and does not fail. -/
theorem foldlM_progress {α : Type} (P : Search → Prop)
    (f : Search → α → Except CodeDefect Search) (xs : List α) (s : Search)
    (hf : ∀ x ∈ xs, ∀ s, P s → ∃ s', f s x = .ok s' ∧ P s') (hs : P s) :
    ∃ s', xs.foldlM f s = .ok s' ∧ P s' := by
  induction xs generalizing s with
  | nil => exact ⟨s, rfl, hs⟩
  | cons x xs ih =>
    obtain ⟨s₁, h₁, hs₁⟩ := hf x List.mem_cons_self s hs
    obtain ⟨s', h', hs'⟩ := ih s₁ (fun y hy => hf y (List.mem_cons_of_mem x hy)) hs₁
    rw [List.foldlM_cons]
    exact ⟨s', bind_eq_ok.2 ⟨s₁, h₁, h'⟩, hs'⟩

/-- **Looking at an instruction below a typing** does not fail. -/
theorem visit_under (hk : c.Typing entry known) (hc : c.Valid) (hin : c.StaysInside)
    (hu : Under known s) (hsize : s.states.size = c.ops.size) (hop : c.ops[i]? = some op)
    (hbefore : before.Paired) (hle : before ≤ known i) :
    ∃ s', s.visit c i op before = .ok s' ∧ Under known s' := by
  obtain ⟨after, -, hstep, -, -⟩ := hk.exists_step hop hbefore hle
  -- the flows of one visit need the number of states to stay as well
  let Fine (s : Search) : Prop := Under known s ∧ s.states.size = c.ops.size
  -- every way out leads below the typing
  have hflow : ∀ {j t}, c.Arrives i before after j t → ∀ s, Fine s →
      ∃ s', s.flow c j t = .ok s' ∧ Fine s' := by
    intro j t harrives s hs
    have hj := harrives.lt_size hc hin
    obtain ⟨s', h, hu'⟩ := flow_under (c := c) hs.1 (hs.2 ▸ hj)
      (hk.arrives_le hop hbefore hle hstep harrives hj) (hk.stack j hj)
    exact ⟨s', h, hu', (size_states_flow h).trans hs.2⟩
  obtain ⟨s₁, h₁, hs₁⟩ := foldlM_progress Fine (flowToHandler c before after)
    (c.guards.filter (·.covers i)) ((s.raise before.stackSize).raise after.stackSize)
    (fun g hg s hs => by
      obtain ⟨hg, hi⟩ := List.mem_filter.1 hg
      obtain ⟨s₁, h₁, hs₁⟩ := hflow (.raisedBefore hg hi) (s.raise 1) hs
      obtain ⟨s₂, h₂, hs₂⟩ := hflow (.raisedAfter hg hi) s₁ hs₁
      exact ⟨s₂, bind_eq_ok.2 ⟨s₁, h₁, h₂⟩, hs₂⟩) ⟨hu, hsize⟩
  obtain ⟨s₂, h₂, hs₂⟩ := foldlM_progress Fine (fun s j => s.flow c j after) op.targets s₁
    (fun j hj s hs => hflow (.jump hop hj) s hs) hs₁
  have hon : ∃ s', s₂.flowOn c i op after = .ok s' ∧ Fine s' := by
    unfold flowOn
    cases hun : op.isUnconditional with
    | true => exact ⟨s₂, rfl, hs₂⟩
    | false =>
      rw [if_neg Bool.false_ne_true, if_neg (not_le.2 (hin i op hop hun))]
      exact hflow (.next hop hun) s₂ hs₂
  obtain ⟨s', h', hs'⟩ := hon
  refine ⟨s', ?_, hs'.1⟩
  unfold visit
  refine bind_eq_ok.2 ⟨after, mapError_eq_ok.2 hstep, bind_eq_ok.2 ⟨s₁, h₁, ?_⟩⟩
  exact bind_eq_ok.2 ⟨s₂, h₂, h'⟩

/-- **A search below a typing does not fail.** -/
theorem run_under (fuel : Nat) (hk : c.Typing entry known) (hc : c.Valid) (hin : c.StaysInside)
    (hbound : c.ReachesBelow bound) (h : Searching c bound entry s) (hu : Under known s) :
    ∃ s', s.run c fuel = .ok s' ∧ Under known s' := by
  induction fuel generalizing s with
  | zero => exact ⟨s, rfl, hu⟩
  | succ fuel ih =>
    unfold run
    rcases hpending : s.pending with - | ⟨i, rest⟩
    · exact ⟨s, rfl, hu⟩
    · obtain ⟨op, before, hop, hbefore⟩ := h.shape.exists_of_pending hpending
      obtain ⟨s₁, h₁, hu₁⟩ := visit_under (s := s.dequeue i rest) hk hc hin hu
        h.shape.states_size hop (h.shape.admits i before hbefore).paired (hu i before hbefore)
      rw [← advance_eq hop hbefore] at h₁
      obtain ⟨s', h', hu'⟩ := ih (h.advance hc hbound hpending h₁).1 hu₁
      exact ⟨s', bind_eq_ok.2 ⟨s₁, h₁, h'⟩, hu'⟩

/-- A search that ended knows something wherever control may come to. -/
theorem exists_stateAt_of_reachable (h : Searching c bound entry s) (hpending : s.pending = [])
    (hi : c.Reachable i) : ∃ t, s.stateAt i = some t := by
  unfold Context.Reachable at hi
  induction hi with
  | refl =>
    obtain ⟨t, ht, -⟩ := h.entered
    exact ⟨t, ht⟩
  -- nothing is pending, so the position before was looked at and passed something on
  | @tail i j _ hleads ih =>
    obtain ⟨t, ht⟩ := ih
    have hq : ¬ s.Queued i := fun hq => by
      have := (h.shape.mem_pending i).2 hq
      rw [hpending] at this
      exact List.not_mem_nil this
    obtain ⟨op, after, hsettled⟩ := h.settled i t ht hq
    obtain ⟨u, hu⟩ := hleads.arrives t after
    obtain ⟨t', ht', -⟩ := hsettled.delivered j u hu
    exact ⟨t', ht'⟩

/-- **Completeness of the search**: if there is a typing and control may come to every instruction
and not behind the last one, the search succeeds, and what it finds lies below the typing. -/
theorem infer_of_typing (hk : c.Typing entry known) (hc : c.Valid) (hin : c.StaysInside)
    (hbound : c.ReachesBelow bound) (hsize : 0 < c.ops.size) (hentry : entry.Paired)
    (hstack : entry.stack = []) (hlocals : entry.locals.length ≤ bound)
    (hle : bound ≤ entry.locals.length + 65537) (hall : ∀ i < c.ops.size, c.Reachable i) :
    ∃ s, infer c entry = .ok s ∧ ∀ i < c.ops.size, s.knownAt i ≤ known i := by
  have hstart := searching_start hsize hentry hstack hlocals
  obtain ⟨s, hrun, hu⟩ := run_under (fuelFor c.ops.size entry.locals.length)
    hk hc hin hbound hstart (fun i t ht => by
      rw [stateAt_start hsize] at ht
      split at ht
      · rename_i hi
        cases ht
        exact hi ▸ hk.entry_le
      · cases ht)
  obtain ⟨hsearching, hpending⟩ :=
    run_spec hc hbound hstart (potential_start_le_fuelFor entry hstack hle) hrun
  have hknown : ∀ i < c.ops.size, ∃ t, s.stateAt i = some t := fun i hi =>
    exists_stateAt_of_reachable hsearching hpending (hall i hi)
  -- something is known of every instruction, so the check at the end passes
  refine ⟨s, ?_, fun i hi => ?_⟩
  · have hnone : s.states.findIdx? Option.isNone = none := by
      rw [Array.findIdx?_eq_none_iff]
      intro state hmem
      obtain ⟨i, hi, rfl⟩ := Array.mem_iff_getElem.1 hmem
      obtain ⟨t, ht⟩ := hknown i (hsearching.shape.states_size ▸ hi)
      unfold stateAt at ht
      rw [Array.getElem?_eq_getElem hi, Option.join_some] at ht
      rw [ht]
      rfl
    unfold infer
    refine bind_eq_ok.2 ⟨s, hrun, ?_⟩
    rw [hnone]
    rfl
  · obtain ⟨t, ht⟩ := hknown i hi
    rw [knownAt_of_stateAt ht]
    exact hu i t ht

end Search

end Code

end ProxyForge
