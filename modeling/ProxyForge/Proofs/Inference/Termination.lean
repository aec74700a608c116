import ProxyForge.Proofs.Inference.Fixpoint
import ProxyForge.Proofs.Method
/-!
# The search ends by itself

The loop of `Search.run` needs no fuel: `search_ends` says after how many rounds nothing is pending,
or something is wrong, whatever the jumps and the handlers of a body are. A position becomes pending
again only when what is known there has risen (`Search.Rises`), a state that is covered already
changes nothing (`TypeState.changed_iff`), and the order has a finite height
(`TypeState.length_le_of_ascending`).
-/

namespace ProxyForge

namespace Code

open SlotType (top)
open Outcome

/-! ## The order of states -/

namespace TypeState

variable {s t m : TypeState} {changed : Bool} {offset bound height : Nat}

/-- A merge that reports a change has risen. -/
theorem lt_of_merge_changed (h : s.merge offset t = .ok (m, true)) : s < m := by
  refine lt_of_le_not_ge (le_of_merge_left h) fun hle => ?_
  have hlt := rank_lt_of_merge_changed h (le_refl s.locals.length)
  have hge := rank_le_of_le s.locals.length hle
  omega

/-- **A merge reports a change** exactly if the state that arrives was not covered. -/
theorem changed_iff (h : s.merge offset t = .ok (m, changed)) : changed = true ↔ ¬ t ≤ s := by
  cases changed with
  | true =>
    refine iff_of_true rfl fun hle => ?_
    exact not_le_of_gt (lt_of_merge_changed h) (merge_le h (le_refl s) hle)
  | false =>
    refine iff_of_false Bool.false_ne_true (not_not.2 ?_)
    exact le_trans (le_of_merge_right h) (le_of_merge_unchanged h)

/-- **A state that rises has less to lose.** -/
theorem rank_lt_of_lt (h : s < t) (hlocals : s.locals.length ≤ bound) (htop : top ∉ t.stack) :
    t.rank bound < s.rank bound := by
  obtain ⟨hle, hnot⟩ := lt_iff_le_not_ge.1 h
  have hstackRank := stackRank_le_of_le hle.stack
  have hlocalsRank := localsRank_le_of_le bound hle.locals
  unfold rank
  by_cases hsame : s.stack = t.stack
  · -- the stacks are the same, so something of a local variable was lost
    have hne : ∃ i, slotAt s.locals i ≠ slotAt t.locals i := by
      by_contra hall
      push Not at hall
      exact hnot ⟨fun i => (hall i).ge, hsame ▸ List.forall₂_refl _⟩
    obtain ⟨i, hi⟩ := hne
    have hlt : i < s.locals.length := by
      by_contra hge
      have hnone := slotAt_of_length_le (not_lt.1 hge)
      exact hi (hnone.trans (SlotType.eq_top_of_le (hnone ▸ hle.locals i)).symm)
    have := localsRank_lt i hle.locals (lt_of_lt_of_le hlt hlocals) hi
    omega
  · have hne : ∃ i, ∃ (hs : i < s.stack.length) (ht : i < t.stack.length),
        s.stack[i] ≠ t.stack[i] := by
      by_contra hall
      push Not at hall
      exact hsame (List.ext_getElem hle.stack.length_eq hall)
    have := stackRank_lt hle.stack htop hne
    omega

/-- A state with at most so many local variables and values on its stack, each of which has some
type. -/
structure Within (bound height : Nat) (t : TypeState) : Prop where
  locals : t.locals.length ≤ bound
  stack : t.stack.length ≤ height
  typed : top ∉ t.stack

theorem Within.rank_le (h : s.Within bound height) : s.rank bound ≤ 2 * height + 3 * bound := by
  have hstack := stackRank_le_length s.stack
  have hlocals := localsRank_le bound s.locals
  have hheight := h.stack
  unfold rank
  omega

/-- Each state has at least as much to lose as states are behind it. -/
theorem length_le_rank {states : List TypeState} (h : (s :: states).Pairwise (· < ·))
    (hall : ∀ t ∈ s :: states, t.Within bound height) : states.length ≤ s.rank bound := by
  induction states generalizing s with
  | nil => exact Nat.zero_le _
  | cons t states ih =>
    obtain ⟨hlt, hrest⟩ := List.pairwise_cons.1 h
    have hbehind := ih hrest fun u hu => hall u (List.mem_cons_of_mem s hu)
    have hrank := rank_lt_of_lt (hlt t List.mem_cons_self) (hall s List.mem_cons_self).locals
      (hall t (List.mem_cons_of_mem s List.mem_cons_self)).typed
    rw [List.length_cons]
    omega

/-- **The order has a finite height**: states that rise are not many. -/
theorem length_le_of_ascending {states : List TypeState} (h : states.Pairwise (· < ·))
    (hall : ∀ t ∈ states, t.Within bound height) :
    states.length ≤ 2 * height + 3 * bound + 1 := by
  cases states with
  | nil => exact Nat.zero_le _
  | cons s states =>
    have hrank := (hall s List.mem_cons_self).rank_le
    have hlength := length_le_rank h hall
    rw [List.length_cons]
    omega

end TypeState

namespace Search

variable {c : Context} {bound : Nat} {entry : TypeState} {s s' s'' : Search} {i j : Nat}
  {rest : List Nat} {t before : TypeState} {op : Op Nat}

/-! ## What rises -/

/-- **States only rise**, and where a position becomes pending, the state there rises strictly. -/
def Rises (s s' : Search) : Prop :=
  ∀ j t, s.stateAt j = some t →
    ∃ t', s'.stateAt j = some t' ∧ t ≤ t' ∧ (¬ s.Queued j → s'.Queued j → t < t')

theorem Rises.refl (s : Search) : s.Rises s :=
  fun _ t ht => ⟨t, ht, le_refl t, fun hq hq' => absurd hq' hq⟩

theorem Rises.trans (h : s.Rises s') (h' : s'.Rises s'') : s.Rises s'' := by
  intro j t ht
  obtain ⟨t', ht', hle, hlt⟩ := h j t ht
  obtain ⟨t'', ht'', hle', hlt'⟩ := h' j t' ht'
  refine ⟨t'', ht'', le_trans hle hle', fun hq hq'' => ?_⟩
  by_cases hq' : s'.Queued j
  · exact lt_of_lt_of_le (hlt hq hq') hle'
  · exact lt_of_le_of_lt hle (hlt' hq' hq'')

theorem rises_dequeue (s : Search) (i : Nat) (rest : List Nat) : s.Rises (s.dequeue i rest) :=
  fun j t ht => ⟨t, ht, le_refl t,
    fun hq hq' => absurd ((queued_dequeue i rest j).1 hq').2 hq⟩

/-- **One arrival**: only the state at its position rises, and only that becomes pending. -/
theorem rises_flow (hs : Shape c bound s) (hj : j < c.ops.size) (h : s.flow c j t = .ok s') :
    s.Rises s' := by
  have hstates : j < s.states.size := hs.states_size ▸ hj
  have hqueued : ∀ u, j < (s.note j u).queued.size := fun u => by
    change j < s.queued.size
    exact hs.queued_size ▸ hj
  -- a position where nothing arrives stays as it was
  have hother : ∀ u i v, i ≠ j → s.stateAt i = some v →
      ((s.note j u).enqueue j).stateAt i = some v ∧
        (((s.note j u).enqueue j).Queued i → s.Queued i) := by
    intro u i v hne hv
    rw [stateAt_enqueue, stateAt_note hstates, if_neg hne, queued_enqueue (hqueued u)]
    exact ⟨hv, fun hq => hq.resolve_left hne⟩
  rcases flow_eq_ok h with ⟨hnone, rfl⟩ | ⟨known, m, changed, hknown, hmerge, rfl⟩
  · intro i v hv
    have hne : i ≠ j := by
      rintro rfl
      cases hnone.symm.trans hv
    obtain ⟨hv', hq'⟩ := hother t i v hne hv
    exact ⟨v, hv', le_refl v, fun hq hqueue => absurd (hq' hqueue) hq⟩
  · intro i v hv
    cases changed with
    | false =>
      -- nothing becomes pending
      rw [if_neg Bool.false_ne_true, stateAt_note hstates]
      by_cases hij : i = j
      · subst hij
        cases hknown.symm.trans hv
        exact ⟨m, if_pos rfl, TypeState.le_of_merge_left hmerge, fun hq hq' => absurd hq' hq⟩
      · exact ⟨v, (if_neg hij).trans hv, le_refl v, fun hq hq' => absurd hq' hq⟩
    | true =>
      rw [if_pos rfl]
      by_cases hij : i = j
      · subst hij
        cases hknown.symm.trans hv
        refine ⟨m, ?_, TypeState.le_of_merge_left hmerge,
          fun _ _ => TypeState.lt_of_merge_changed hmerge⟩
        rw [stateAt_enqueue, stateAt_note hstates, if_pos rfl]
      · obtain ⟨hv', hq'⟩ := hother m i v hij hv
        exact ⟨v, hv', le_refl v, fun hq hqueue => absurd (hq' hqueue) hq⟩

/-! ## One round -/

/-- What each step of a fold keeps, the fold keeps. -/
theorem foldlM_induct {α : Type} {P : Search → Prop} {f : Search → α → Except CodeDefect Search}
    {xs : List α} (hf : ∀ x ∈ xs, ∀ u u', P u → f u x = .ok u' → P u') (hs : P s)
    (h : xs.foldlM f s = .ok s') : P s' := by
  induction xs generalizing s with
  | nil =>
    cases h
    exact hs
  | cons x xs ih =>
    rw [List.foldlM_cons] at h
    obtain ⟨s₁, h₁, hrest⟩ := bind_eq_ok.1 h
    exact ih (fun y hy => hf y (List.mem_cons_of_mem x hy)) (hf x List.mem_cons_self s s₁ hs h₁)
      hrest

/-- **Looking at an instruction is nothing but arrivals** on its ways out. What each of them keeps,
and a greater stack keeps, looking at the instruction keeps. -/
theorem visit_induct (hc : c.Valid) {P : Search → Prop} (hop : c.ops[i]? = some op)
    (hraise : ∀ u size, P u → P (u.raise size))
    (hflow : ∀ after j t u u', before.step c.shape (c.offsetAt i) op = .ok after →
      c.Arrives i before after j t → j < c.ops.size → P u → u.flow c j t = .ok u' → P u')
    (hs : P s) (h : s.visit c i op before = .ok s') : P s' := by
  obtain ⟨after, s₁, s₂, hstep, hguards, htargets, hnext⟩ := visit_eq_ok h
  have hs₁ : P s₁ := by
    refine foldlM_induct (fun g hg u u' hu hthrow => ?_) (hraise _ _ (hraise _ _ hs)) hguards
    obtain ⟨hg, hi⟩ := List.mem_filter.1 hg
    obtain ⟨u₁, hflow₁, hflow₂⟩ := bind_eq_ok.1 hthrow
    have hlt := hc.handler_lt g hg
    have hu₁ := hflow after _ _ _ _ hstep (.raisedBefore hg hi) hlt (hraise u 1 hu) hflow₁
    exact hflow after _ _ _ _ hstep (.raisedAfter hg hi) hlt hu₁ hflow₂
  have hs₂ : P s₂ := foldlM_induct (fun j hj u u' hu hjump =>
    hflow after _ _ _ _ hstep (.jump hop hj) (hc.target_lt i op hop j hj) hu hjump) hs₁ htargets
  unfold flowOn at hnext
  cases hu : op.isUnconditional with
  | true =>
    rw [hu, if_pos rfl] at hnext
    cases hnext
    exact hs₂
  | false =>
    rw [hu, if_neg Bool.false_ne_true] at hnext
    split at hnext
    · cases hnext
    · next hlt => exact hflow after _ _ _ _ hstep (.next hop hu) (not_le.1 hlt) hs₂ hnext

/-- **One round of the loop.** The position that it looks at is no longer pending, and where one
becomes pending again, the state has risen. -/
theorem rises_advance (hc : c.Valid) (hbound : c.ReachesBelow bound)
    (h : Searching c bound entry s) (hpending : s.pending = i :: rest)
    (hadvance : { s with pending := rest }.advance c i = .ok s') :
    (s.dequeue i rest).Rises s' := by
  obtain ⟨op, before, hop, hbefore⟩ := h.shape.exists_of_pending hpending
  rw [advance_eq hop hbefore] at hadvance
  have hs := h.shape.dequeue hpending
  let Kept (u : Search) : Prop :=
    Shape c bound u ∧ Extends c bound (s.dequeue i rest) u ∧ (s.dequeue i rest).Rises u
  have hkept : Kept s' := by
    refine visit_induct hc hop (P := Kept) ?_ ?_ ⟨hs, .refl _, .refl _⟩ hadvance
    · rintro u size ⟨hu, hext, hrises⟩
      exact ⟨hu.raise size, hext.trans (extends_raise c bound u size), hrises⟩
    · rintro after j t u u' hstep harrives hj ⟨hu, hext, hrises⟩ hflow
      have hadmits := hext.admits (.of_arrives hc hs hbound hbefore hop hstep harrives)
      obtain ⟨hu', hext', -⟩ := flow_spec hu hadmits hj hflow
      exact ⟨hu', hext.trans hext', hrises.trans (rises_flow hu hj hflow)⟩
  exact hkept.2.2

/-! ## The loop -/

/-- Rounds behind rounds. -/
theorem run_add (c : Context) (m n : Nat) (s : Search) :
    s.run c (m + n) = s.run c m >>= fun s' => s'.run c n := by
  induction m generalizing s with
  | zero => rw [Nat.zero_add]; rfl
  | succ m ih =>
    rw [Nat.add_right_comm, run, run]
    split
    · next hpending =>
      cases n with
      | zero => rfl
      | succ n =>
        change _ = s.run c (n + 1)
        rw [run, hpending]
    · rw [bind_assoc]
      exact bind_congr ih

/-- **Along the loop states rise.** -/
theorem rises_run (hc : c.Valid) (hbound : c.ReachesBelow bound) {rounds : Nat}
    (h : Searching c bound entry s) (hrun : s.run c rounds = .ok s') : s.Rises s' := by
  induction rounds generalizing s with
  | zero =>
    cases hrun
    exact .refl _
  | succ rounds ih =>
    unfold run at hrun
    split at hrun
    · cases hrun
      exact .refl _
    · next i rest hpending =>
      obtain ⟨s₁, hadvance, hrest⟩ := bind_eq_ok.1 hrun
      have h₁ := (h.advance hc hbound hpending hadvance).1
      exact ((rises_dequeue s i rest).trans (rises_advance hc hbound h hpending hadvance)).trans
        (ih h₁ hrest)

/-- What was known at a position that is looked at rises until it is pending again. -/
theorem rises_rounds (hc : c.Valid) (hbound : c.ReachesBelow bound) {rounds : Nat}
    (h : Searching c bound entry s) (hpending : s.pending = i :: rest)
    (hrun : s.run c (rounds + 1) = .ok s') : (s.dequeue i rest).Rises s' := by
  unfold run at hrun
  rw [hpending] at hrun
  obtain ⟨s₁, hadvance, hrest⟩ := bind_eq_ok.1 hrun
  have h₁ := (h.advance hc hbound hpending hadvance).1
  exact (rises_advance hc hbound h hpending hadvance).trans (rises_run hc hbound h₁ hrest)

/-- When nothing is pending, the loop has ended. -/
theorem run_of_pending_nil (hpending : s.pending = []) (fuel : Nat) : s.run c fuel = .ok s := by
  cases fuel with
  | zero => rfl
  | succ fuel => rw [run, hpending]

/-- **How the loop ends**, from its start with a state at the first position. -/
structure Ends (c : Context) (entry : TypeState) (bound : Nat) : Prop where
  /-- Nothing is pending, or something is wrong; more fuel makes no difference. -/
  ended : (∃ s, s.pending = [] ∧ ∀ fuel ≥ roundLimit c.ops.size bound,
      (start c.ops.size entry).run c fuel = .ok s) ∨
    ∃ defect, ∀ fuel ≥ roundLimit c.ops.size bound,
      (start c.ops.size entry).run c fuel = .error defect
  /-- Where a round makes a position pending again, the state there has risen. -/
  risen : ∀ rounds s s' i rest, (start c.ops.size entry).run c rounds = .ok s →
    s.pending = i :: rest → (start c.ops.size entry).run c (rounds + 1) = .ok s' →
    ∀ j t, s.stateAt j = some t → (j = i ∨ j ∉ s.pending) → j ∈ s'.pending →
      ∃ t', s'.stateAt j = some t' ∧ t < t'
  /-- Whenever a position is looked at again, the state there has risen. -/
  visited : ∀ earlier later s s' i rest rest', earlier < later →
    (start c.ops.size entry).run c earlier = .ok s → s.pending = i :: rest →
    (start c.ops.size entry).run c later = .ok s' → s'.pending = i :: rest' →
      ∃ t t', s.stateAt i = some t ∧ s'.stateAt i = some t' ∧ t < t'
  /-- All states are within bounds. -/
  within : ∀ rounds s, (start c.ops.size entry).run c rounds = .ok s →
    ∀ j t, s.stateAt j = some t → t.Within bound c.ops.size

/-- **The loop ends** for every search that starts well. -/
theorem Searching.ends (hc : c.Valid) (hbound : c.ReachesBelow bound)
    (h : Searching c bound entry (start c.ops.size entry)) (hstack : entry.stack = []) :
    Ends c entry bound where
  ended := by
    have hfuel : (start c.ops.size entry).potential c bound ≤ roundLimit c.ops.size bound :=
      potential_start_le entry hstack
    cases hrun : (start c.ops.size entry).run c (roundLimit c.ops.size bound) with
    | ok s =>
      have hpending := (run_spec hc hbound h hfuel hrun).2
      refine .inl ⟨s, hpending, fun fuel hle => ?_⟩
      obtain ⟨more, rfl⟩ := Nat.exists_eq_add_of_le hle
      rw [run_add, hrun]
      exact run_of_pending_nil hpending more
    | error defect =>
      refine .inr ⟨defect, fun fuel hle => ?_⟩
      obtain ⟨more, rfl⟩ := Nat.exists_eq_add_of_le hle
      rw [run_add, hrun]
      rfl
  risen rounds s s' i rest hrun hpending hnext j t ht hj hj' := by
    have hs := (run_keeps hc hbound h hrun).1
    have hs' := (run_keeps hc hbound h hnext).1
    rw [run_add, hrun] at hnext
    obtain ⟨t', ht', -, hlt⟩ := rises_rounds hc hbound hs hpending hnext j t ht
    refine ⟨t', ht', hlt (fun hq => ?_) ((hs'.shape.mem_pending j).1 hj')⟩
    obtain ⟨hne, hq⟩ := (queued_dequeue i rest j).1 hq
    exact hj.resolve_left hne ((hs.shape.mem_pending j).2 hq)
  visited earlier later s s' i rest rest' hlt hrun hpending hrun' hpending' := by
    have hs := (run_keeps hc hbound h hrun).1
    have hs' := (run_keeps hc hbound h hrun').1
    obtain ⟨more, rfl⟩ := Nat.exists_eq_add_of_lt hlt
    rw [Nat.add_assoc, run_add, hrun] at hrun'
    obtain ⟨op, t, -, ht⟩ := hs.shape.exists_of_pending hpending
    obtain ⟨t', ht', -, hlt'⟩ := rises_rounds hc hbound hs hpending hrun' i t ht
    refine ⟨t, t', ht, ht', hlt' (fun hq => ?_) ?_⟩
    · exact ((queued_dequeue i rest i).1 hq).1 rfl
    · exact (hs'.shape.mem_pending i).1 (hpending' ▸ List.mem_cons_self)
  within rounds s hrun j t ht := by
    have hs := (run_keeps hc hbound h hrun).1.shape
    have hadmits := hs.admits j t ht
    exact ⟨hadmits.locals, le_trans hadmits.height (card_discovered_le c s), hadmits.paired.stack⟩

end Search

variable {m : MethodHeader} {body : Body} {p : Program} {e : TypeState}

/-- **The search for frames ends by itself**, for every method and every body that has instructions,
wherever they lie and whatever jumps and handlers it has. It looks at a position again only when the
state there has risen; states have a bounded size, and in their order nothing rises without end;
and a merge reports a change only if the state that arrives was not covered. So the fuel that the
search is given is more than it needs. -/
theorem search_ends (hbody : body.resolve = .ok p) (hne : body.ops ≠ [])
    (he : TypeState.entry m = .ok e) (offsets : Array Nat) :
    Search.Ends (p.context m offsets) e (max e.locals.length 65537) ∧
    Search.roundLimit p.ops.size (max e.locals.length 65537) ≤
      Search.fuelFor p.ops.size e.locals.length ∧
    (∀ (bound height : Nat) (states : List TypeState), states.Pairwise (· < ·) →
      (∀ t ∈ states, t.Within bound height) → states.length ≤ 2 * height + 3 * bound + 1) ∧
    ∀ (known t : TypeState) (offset : Nat),
      (∀ merged changed, known.merge offset t = .ok (merged, changed) →
        (changed = true ↔ ¬ t ≤ known)) ∧
      (t ≤ known → top ∉ known.stack → ∃ merged, known.merge offset t = .ok (merged, false)) := by
  have hstack : e.stack = [] := by rw [TypeState.entry_ok he]
  have hstart := Search.searching_start (c := p.context m offsets)
    (Program.size_pos_of_resolve hbody hne) (TypeState.paired_entry he) hstack
    (le_max_left e.locals.length 65537)
  refine ⟨hstart.ends (Program.valid_of_resolve hbody) (Context.reachesBelow_max _ _) hstack,
    Search.roundLimit_le_fuelFor (by omega),
    fun _ _ _ h hall => TypeState.length_le_of_ascending h hall,
    fun known t offset => ⟨fun _ _ h => TypeState.changed_iff h, fun hle htop => ?_⟩⟩
  obtain ⟨merged, changed, hmerge⟩ := TypeState.exists_merge offset (le_refl known) hle htop
  cases changed with
  | false => exact ⟨merged, hmerge⟩
  | true => exact absurd hle ((TypeState.changed_iff hmerge).1 rfl)

/-- The search through the method that never ends does end, and its fuel is more than it needs. -/
theorem search_ends_spin :
    (Search.start 3 ⟨[], []⟩).run (Spin.program.context Spin.header Spin.layout.offsets)
        (Search.roundLimit 3 65537) = .ok Spin.search ∧
      Search.roundLimit 3 65537 ≤ Search.fuelFor 3 0 ∧ Spin.search.pending = [] := by
  obtain ⟨hends, hlimit, -⟩ :=
    search_ends Spin.laidOut.resolve (by decide) Spin.entry Spin.layout.offsets
  have hrun := (Search.infer_eq_ok Spin.infer).1
  obtain ⟨s, -, hall⟩ | ⟨defect, hall⟩ := hends.ended
  · cases (hall _ hlimit).symm.trans hrun
    exact ⟨hall _ (le_refl _), hlimit, rfl⟩
  · cases (hall _ hlimit).symm.trans hrun

end Code

end ProxyForge
