import Mathlib.Algebra.Order.BigOperators.Group.Finset
import ProxyForge.Proofs.Inference.Machine
/-!
# States that flow

What `Search.flow` does to a search, for one state that arrives at one position. `Shape` is the
invariant of a search between two arrivals; `Extends` is what an arrival does not undo: states
only rise, a position whose state rose is pending, and the search comes closer to its end
(`potential`). `flow_spec` proves both of one arrival.
-/

namespace ProxyForge

namespace Code

namespace Search

open SlotType (top)
open Outcome

variable {c : Context} {bound : Nat} {s s' s'' : Search} {i j : Nat} {t : TypeState}

/-! ## Invariant -/

/-- Is the position in the queue? -/
def Queued (s : Search) (i : Nat) : Prop :=
  s.queued[i]? = some true

/-- The positions that were reached. -/
def discovered (c : Context) (s : Search) : Finset Nat :=
  (Finset.range c.ops.size).filter fun i => (s.stateAt i).isSome

/-- **A state that may arrive** at a position: one that control may come to, with paired locals of
bounded number, and with no more values on the stack than positions were reached. -/
structure Admits (c : Context) (bound : Nat) (s : Search) (i : Nat) (t : TypeState) : Prop where
  reachable : c.Reachable i
  paired : t.Paired
  locals : t.locals.length ≤ bound
  height : t.stack.length ≤ (s.discovered c).card

/-- **The shape of a search.** A position is pending exactly if it is marked as queued, and it was
reached then. -/
structure Shape (c : Context) (bound : Nat) (s : Search) : Prop where
  states_size : s.states.size = c.ops.size
  queued_size : s.queued.size = c.ops.size
  mem_pending : ∀ i, i ∈ s.pending ↔ s.Queued i
  nodup : s.pending.Nodup
  known_of_queued : ∀ i, s.Queued i → ∃ t, s.stateAt i = some t
  admits : ∀ i t, s.stateAt i = some t → Admits c bound s i t
  height : ∀ i t, s.stateAt i = some t → t.stack.length < (s.discovered c).card

/-- How often something can still become known, or be lost, at a position. -/
def rankAt (c : Context) (bound : Nat) : Option TypeState → Nat
  | none => 2 * c.ops.size + 3 * bound + 1
  | some t => t.rank bound

/-- **How far a search is from its end**: what can still change, and what is pending. -/
def potential (c : Context) (bound : Nat) (s : Search) : Nat :=
  s.pending.length + ∑ i ∈ Finset.range c.ops.size, rankAt c bound (s.stateAt i)

/-- **What an arrival does not undo.** -/
structure Extends (c : Context) (bound : Nat) (s s' : Search) : Prop where
  known : ∀ i t, s.stateAt i = some t →
    ∃ t', s'.stateAt i = some t' ∧ t ≤ t' ∧ (¬ s'.Queued i → t' ≤ t)
  fresh : ∀ i t', s.stateAt i = none → s'.stateAt i = some t' → s'.Queued i
  queued : ∀ i, s.Queued i → s'.Queued i
  maxStack : s.maxStack ≤ s'.maxStack
  potential : s'.potential c bound ≤ s.potential c bound

/-- Something above the state is known at the position. -/
def Delivered (s : Search) (j : Nat) (t : TypeState) : Prop :=
  ∃ t', s.stateAt j = some t' ∧ t ≤ t'

namespace Extends

theorem refl (s : Search) : Extends c bound s s where
  known _ t h := ⟨t, h, le_refl t, fun _ => le_refl t⟩
  fresh i t' h h' := by rw [h] at h'; cases h'
  queued _ h := h
  maxStack := UInt16.le_refl _
  potential := le_refl _

theorem trans (h : Extends c bound s s') (h' : Extends c bound s' s'') :
    Extends c bound s s'' where
  known i t ht := by
    obtain ⟨t', ht', hle, hge⟩ := h.known i t ht
    obtain ⟨t'', ht'', hle', hge'⟩ := h'.known i t' ht'
    exact ⟨t'', ht'', le_trans hle hle',
      fun hq => le_trans (hge' hq) (hge fun hq' => hq (h'.queued i hq'))⟩
  fresh i t'' hnone ht'' := by
    rcases ht' : s'.stateAt i with - | t'
    · exact h'.fresh i t'' ht' ht''
    · exact h'.queued i (h.fresh i t' hnone ht')
  queued i hq := h'.queued i (h.queued i hq)
  maxStack := UInt16.le_trans h.maxStack h'.maxStack
  potential := le_trans h'.potential h.potential

theorem discovered_subset (h : Extends c bound s s') : s.discovered c ⊆ s'.discovered c := by
  intro i hi
  simp only [discovered, Finset.mem_filter, Option.isSome_iff_exists] at hi ⊢
  obtain ⟨hlt, t, ht⟩ := hi
  obtain ⟨t', ht', -⟩ := h.known i t ht
  exact ⟨hlt, t', ht'⟩

theorem delivered (h : Extends c bound s s') (hd : s.Delivered j t) : s'.Delivered j t := by
  obtain ⟨t₁, ht₁, hle⟩ := hd
  obtain ⟨t₂, ht₂, hle', -⟩ := h.known j t₁ ht₁
  exact ⟨t₂, ht₂, le_trans hle hle'⟩

theorem admits (h : Extends c bound s s') (ht : Admits c bound s i t) :
    Admits c bound s' i t :=
  { ht with height := le_trans ht.height (Finset.card_le_card h.discovered_subset) }

end Extends

/-! ## Taking note of a state -/

/-- The search with a state noted at a position. -/
def note (s : Search) (j : Nat) (t : TypeState) : Search :=
  { s with states := s.states.setIfInBounds j (some t) }

theorem stateAt_note (hj : j < s.states.size) (t : TypeState) (i : Nat) :
    (s.note j t).stateAt i = if i = j then some t else s.stateAt i := by
  unfold note stateAt
  rw [Array.getElem?_setIfInBounds]
  by_cases hij : j = i
  · rw [if_pos hij, if_pos hij.symm, if_pos (hij ▸ hj)]
    rfl
  · rw [if_neg hij, if_neg (Ne.symm hij)]

theorem stateAt_enqueue (j i : Nat) : (s.enqueue j).stateAt i = s.stateAt i := by
  unfold enqueue
  split <;> rfl

theorem size_states_enqueue (j : Nat) : (s.enqueue j).states.size = s.states.size := by
  unfold enqueue
  split <;> rfl

theorem size_queued_enqueue (j : Nat) : (s.enqueue j).queued.size = s.queued.size := by
  unfold enqueue
  split
  · rfl
  · exact Array.size_setIfInBounds

theorem maxStack_enqueue (j : Nat) : (s.enqueue j).maxStack = s.maxStack := by
  unfold enqueue
  split <;> rfl

/-- A position that is not queued yet is put in front of the queue. -/
theorem enqueue_of_not_queued (hj : j < s.queued.size) (hq : ¬ s.Queued j) :
    s.enqueue j = { s with
      pending := j :: s.pending
      queued := s.queued.setIfInBounds j true } := by
  unfold enqueue
  rw [if_neg]
  simp only [Queued, Array.getElem?_eq_getElem hj, Option.some.injEq] at hq
  simpa [Array.getD, hj] using hq

theorem enqueue_of_queued (hq : s.Queued j) : s.enqueue j = s := by
  unfold enqueue
  rw [if_pos]
  unfold Queued at hq
  simp [Array.getD_eq_getD_getElem?, hq]

theorem queued_enqueue (hj : j < s.queued.size) (i : Nat) :
    (s.enqueue j).Queued i ↔ i = j ∨ s.Queued i := by
  by_cases hq : s.Queued j
  · rw [enqueue_of_queued hq]
    constructor
    · exact .inr
    · rintro (rfl | h)
      · exact hq
      · exact h
  · rw [enqueue_of_not_queued hj hq]
    unfold Queued
    simp only [Array.getElem?_setIfInBounds, hj, if_true]
    by_cases hij : j = i
    · simp [hij]
    · simp [hij, Ne.symm hij]

theorem length_pending_enqueue (hj : j < s.queued.size) :
    (s.enqueue j).pending.length ≤ s.pending.length + 1 := by
  by_cases hq : s.Queued j
  · rw [enqueue_of_queued hq]
    omega
  · rw [enqueue_of_not_queued hj hq]
    simp

/-- A noted state changes the rank at its own position only. -/
theorem sum_rank_note (c : Context) (bound : Nat) (hj : j < c.ops.size)
    (hsize : s.states.size = c.ops.size) (t : TypeState) :
    ∑ i ∈ Finset.range c.ops.size, rankAt c bound ((s.note j t).stateAt i) +
        rankAt c bound (s.stateAt j) =
      ∑ i ∈ Finset.range c.ops.size, rankAt c bound (s.stateAt i) + t.rank bound := by
  have hmem : j ∈ Finset.range c.ops.size := Finset.mem_range.2 hj
  rw [← Finset.add_sum_erase _ _ hmem,
    ← Finset.add_sum_erase _ (fun i => rankAt c bound (s.stateAt i)) hmem,
    stateAt_note (hsize ▸ hj), if_pos rfl]
  have hrest : ∑ i ∈ (Finset.range c.ops.size).erase j, rankAt c bound ((s.note j t).stateAt i) =
      ∑ i ∈ (Finset.range c.ops.size).erase j, rankAt c bound (s.stateAt i) := by
    refine Finset.sum_congr rfl fun i hi => ?_
    rw [stateAt_note (hsize ▸ hj), if_neg (Finset.ne_of_mem_erase hi)]
  -- all other positions count as before
  rw [hrest]
  simp only [rankAt]
  omega

theorem discovered_note (hj : j < c.ops.size) (hsize : s.states.size = c.ops.size)
    (t : TypeState) : (s.note j t).discovered c = insert j (s.discovered c) := by
  ext i
  simp only [discovered, Finset.mem_filter, Finset.mem_insert, Finset.mem_range]
  rw [stateAt_note (hsize ▸ hj)]
  by_cases hij : i = j
  · simp [hij, hj]
  · simp [hij]

theorem discovered_enqueue (c : Context) (s : Search) (j : Nat) :
    (s.enqueue j).discovered c = s.discovered c := by
  simp only [discovered, stateAt_enqueue]

/-- **What is needed of a state to be noted**: it is above what was known, and it may stand
there. -/
structure Notable (c : Context) (bound : Nat) (s : Search) (j : Nat) (t : TypeState) : Prop where
  position_lt : j < c.ops.size
  known_le : ∀ known, s.stateAt j = some known → known ≤ t
  reachable : c.Reachable j
  paired : t.Paired
  locals : t.locals.length ≤ bound
  height : t.stack.length < (insert j (s.discovered c)).card

namespace Notable

theorem card_le (c : Context) (s : Search) (j : Nat) :
    (s.discovered c).card ≤ (insert j (s.discovered c)).card :=
  Finset.card_le_card (Finset.subset_insert _ _)

/-- What was admitted is still admitted behind a note. -/
theorem admits (hs : Shape c bound s) (h : Notable c bound s j t) (i : Nat) (u : TypeState)
    (hu : (s.note j t).stateAt i = some u) :
    Admits c bound (s.note j t) i u ∧ u.stack.length < ((s.note j t).discovered c).card := by
  rw [discovered_note h.position_lt hs.states_size]
  rw [stateAt_note (hs.states_size ▸ h.position_lt)] at hu
  have hcard := card_le c s j
  by_cases hij : i = j
  · rw [if_pos hij] at hu
    cases hu
    refine ⟨⟨hij ▸ h.reachable, h.paired, h.locals, ?_⟩, h.height⟩
    rw [discovered_note h.position_lt hs.states_size]
    exact h.height.le
  · rw [if_neg hij] at hu
    have hadmits := hs.admits i u hu
    refine ⟨⟨hadmits.reachable, hadmits.paired, hadmits.locals, ?_⟩,
      lt_of_lt_of_le (hs.height i u hu) hcard⟩
    rw [discovered_note h.position_lt hs.states_size]
    exact le_trans hadmits.height hcard

/-- What is known behind a note. -/
theorem stateAt (hs : Shape c bound s) (h : Notable c bound s j t) (i : Nat) :
    (s.note j t).stateAt i = if i = j then some t else s.stateAt i :=
  stateAt_note (hs.states_size ▸ h.position_lt) t i

theorem lt_size_queued (hs : Shape c bound s) (h : Notable c bound s j t) :
    j < (s.note j t).queued.size := by
  change j < s.queued.size
  rw [hs.queued_size]
  exact h.position_lt

theorem known_of_queued (hs : Shape c bound s) (h : Notable c bound s j t)
    (hi : i = j ∨ s.Queued i) : ∃ u, (s.note j t).stateAt i = some u := by
  rw [h.stateAt hs]
  by_cases hij : i = j
  · exact ⟨t, if_pos hij⟩
  · rw [if_neg hij]
    exact hs.known_of_queued i (hi.resolve_left hij)

/-! ### A note that is queued -/

/-- **A note that is queued keeps the shape**: its position is pending once. -/
theorem shape_enqueue (hs : Shape c bound s) (h : Notable c bound s j t) :
    Shape c bound ((s.note j t).enqueue j) where
  states_size := by
    rw [size_states_enqueue, ← hs.states_size]
    exact Array.size_setIfInBounds
  queued_size := by
    rw [size_queued_enqueue]
    exact hs.queued_size
  mem_pending i := by
    rw [queued_enqueue (h.lt_size_queued hs)]
    by_cases hq : (s.note j t).Queued j
    · rw [enqueue_of_queued hq]
      have hmem := hs.mem_pending i
      constructor
      · exact fun hi => .inr (hmem.1 hi)
      · rintro (rfl | hi)
        · exact (hs.mem_pending i).2 hq
        · exact hmem.2 hi
    · rw [enqueue_of_not_queued (h.lt_size_queued hs) hq]
      change i ∈ j :: s.pending ↔ _
      rw [List.mem_cons, hs.mem_pending]
      rfl
  nodup := by
    by_cases hq : (s.note j t).Queued j
    · rw [enqueue_of_queued hq]
      exact hs.nodup
    · -- what is put in front was not in the queue
      rw [enqueue_of_not_queued (h.lt_size_queued hs) hq]
      exact List.nodup_cons.2 ⟨fun hmem => hq ((hs.mem_pending j).1 hmem), hs.nodup⟩
  known_of_queued i hi := by
    rw [stateAt_enqueue]
    exact h.known_of_queued hs ((queued_enqueue (h.lt_size_queued hs) i).1 hi)
  admits i u hu := by
    rw [stateAt_enqueue] at hu
    have hadmits := (h.admits hs i u hu).1
    exact { hadmits with height := discovered_enqueue c (s.note j t) j ▸ hadmits.height }
  height i u hu := by
    rw [stateAt_enqueue] at hu
    rw [discovered_enqueue]
    exact (h.admits hs i u hu).2

/-- **A note that is queued undoes nothing.** Something became known or was lost, so the search is
no farther from its end although one more position is pending. -/
theorem extends_enqueue (hs : Shape c bound s) (h : Notable c bound s j t)
    (hrank : t.rank bound < rankAt c bound (s.stateAt j)) :
    Extends c bound s ((s.note j t).enqueue j) where
  known i u hu := by
    rw [stateAt_enqueue, h.stateAt hs, queued_enqueue (h.lt_size_queued hs)]
    by_cases hij : i = j
    · exact ⟨t, if_pos hij, h.known_le u (hij ▸ hu), fun hq => absurd (.inl hij) hq⟩
    · exact ⟨u, by rw [if_neg hij, hu], le_refl u, fun _ => le_refl u⟩
  fresh i u hnone hu := by
    rw [queued_enqueue (h.lt_size_queued hs)]
    rw [stateAt_enqueue, h.stateAt hs] at hu
    by_cases hij : i = j
    · exact .inl hij
    · rw [if_neg hij, hnone] at hu
      cases hu
  queued i hi := (queued_enqueue (h.lt_size_queued hs) i).2 (.inr hi)
  maxStack := by
    rw [maxStack_enqueue]
    exact UInt16.le_refl _
  potential := by
    -- the rank that the position lost pays for the place in the queue
    have hlen := length_pending_enqueue (h.lt_size_queued hs)
    have hsum := sum_rank_note c bound h.position_lt hs.states_size t
    simp only [Search.potential, stateAt_enqueue]
    change _ ≤ s.pending.length + 1 at hlen
    omega

/-! ### A note that changes nothing

Nothing is lost but the number of slots of which nothing is known. -/

theorem shape_note (hs : Shape c bound s) (h : Notable c bound s j t) :
    Shape c bound (s.note j t) where
  states_size := by
    rw [← hs.states_size]
    exact Array.size_setIfInBounds
  queued_size := hs.queued_size
  mem_pending := hs.mem_pending
  nodup := hs.nodup
  known_of_queued i hi := h.known_of_queued hs (.inr hi)
  admits i u hu := (h.admits hs i u hu).1
  height i u hu := (h.admits hs i u hu).2

theorem extends_note (hs : Shape c bound s) (h : Notable c bound s j t) {known : TypeState}
    (hknown : s.stateAt j = some known) (hle : t ≤ known) : Extends c bound s (s.note j t) where
  known i u hu := by
    rw [h.stateAt hs]
    by_cases hij : i = j
    · have hu' : known = u := Option.some.inj (hknown.symm.trans (hij ▸ hu))
      exact ⟨t, if_pos hij, hu' ▸ h.known_le known hknown, fun _ => hu' ▸ hle⟩
    · exact ⟨u, by rw [if_neg hij, hu], le_refl u, fun _ => le_refl u⟩
  fresh i u hnone hu := by
    rw [h.stateAt hs] at hu
    by_cases hij : i = j
    · rw [hij, hknown] at hnone
      cases hnone
    · rw [if_neg hij, hnone] at hu
      cases hu
  queued _ hi := hi
  maxStack := UInt16.le_refl _
  potential := by
    have hsum := sum_rank_note c bound h.position_lt hs.states_size t
    have hrank := TypeState.rank_le_of_le bound (h.known_le known hknown)
    rw [hknown] at hsum
    change s.pending.length + _ ≤ s.pending.length + _
    simp only [rankAt] at hsum ⊢
    omega

end Notable

/-! ## One arrival -/

theorem flow_eq_ok (h : s.flow c j t = .ok s') :
    (s.stateAt j = none ∧ s' = (s.note j t).enqueue j) ∨
      ∃ known m changed, s.stateAt j = some known ∧
        known.merge (c.offsetAt j) t = .ok (m, changed) ∧
        s' = if changed then (s.note j m).enqueue j else s.note j m := by
  unfold flow at h
  rcases hknown : s.stateAt j with - | known
  · rw [hknown] at h
    cases h
    exact .inl ⟨rfl, rfl⟩
  · rw [hknown] at h
    obtain ⟨⟨m, changed⟩, hmerge, hresult⟩ := bind_eq_ok.1 h
    cases hresult
    exact .inr ⟨known, m, changed, rfl, hmerge, rfl⟩

theorem mem_discovered {u : TypeState} (hj : j < c.ops.size) (h : s.stateAt j = some u) :
    j ∈ s.discovered c := by
  simp [discovered, hj, h]

theorem notMem_discovered (h : s.stateAt j = none) : j ∉ s.discovered c := by
  simp [discovered, h]

theorem card_discovered_le (c : Context) (s : Search) : (s.discovered c).card ≤ c.ops.size := by
  have h := Finset.card_filter_le (Finset.range c.ops.size) fun i => (s.stateAt i).isSome
  rwa [Finset.card_range] at h

/-- What arrives where nothing was known may be noted. -/
theorem Admits.notable (h : Admits c bound s j t) (hj : j < c.ops.size)
    (hnone : s.stateAt j = none) : Notable c bound s j t where
  position_lt := hj
  known_le known hknown := by
    rw [hnone] at hknown
    cases hknown
  reachable := h.reachable
  paired := h.paired
  locals := h.locals
  height := by
    rw [Finset.card_insert_of_notMem (notMem_discovered hnone)]
    exact Nat.lt_succ_of_le h.height

/-- What arrives where something was known may be noted when it is merged. -/
theorem Shape.notable (hs : Shape c bound s) (h : Admits c bound s j t) (hj : j < c.ops.size)
    {known m : TypeState} {changed : Bool} (hknown : s.stateAt j = some known)
    (hmerge : known.merge (c.offsetAt j) t = .ok (m, changed)) : Notable c bound s j m where
  position_lt := hj
  known_le u hu := by
    rw [hknown] at hu
    cases hu
    exact TypeState.le_of_merge_left hmerge
  reachable := h.reachable
  paired := (hs.admits j known hknown).paired.merge h.paired hmerge
  locals := by
    obtain ⟨-, -, rfl, -⟩ := TypeState.merge_eq_ok_iff.1 hmerge
    rw [TypeState.length_mergeLocals]
    exact max_le (hs.admits j known hknown).locals h.locals
  height := by
    rw [TypeState.length_stack_of_merge hmerge]
    exact lt_of_lt_of_le (hs.height j known hknown) (Notable.card_le c s j)

/-- **One arrival** keeps the shape of the search, undoes nothing, and leaves something above the
state that arrived. -/
theorem flow_spec (hs : Shape c bound s) (ht : Admits c bound s j t) (hj : j < c.ops.size)
    (h : s.flow c j t = .ok s') :
    Shape c bound s' ∧ Extends c bound s s' ∧ s'.Delivered j t := by
  have hnoted : ∀ u, (s.note j u).stateAt j = some u := fun u => by
    rw [stateAt_note (hs.states_size ▸ hj), if_pos rfl]
  rcases flow_eq_ok h with ⟨hnone, rfl⟩ | ⟨known, m, changed, hknown, hmerge, rfl⟩
  · -- what arrives first has a lower rank than knowing nothing
    have hrank : t.rank bound < rankAt c bound (s.stateAt j) := by
      have hstack := TypeState.stackRank_le_length t.stack
      have hlocals := TypeState.localsRank_le bound t.locals
      have hheight := le_trans ht.height (card_discovered_le c s)
      rw [hnone]
      simp only [rankAt, TypeState.rank]
      omega
    have hnotable := ht.notable hj hnone
    exact ⟨hnotable.shape_enqueue hs, hnotable.extends_enqueue hs hrank, t,
      by rw [stateAt_enqueue, hnoted], le_refl t⟩
  · have hnotable := hs.notable ht hj hknown hmerge
    have hle := TypeState.le_of_merge_right hmerge
    cases changed with
    | true =>
      have hrank : m.rank bound < rankAt c bound (s.stateAt j) := by
        rw [hknown]
        exact TypeState.rank_lt_of_merge_changed hmerge (hs.admits j known hknown).locals
      exact ⟨hnotable.shape_enqueue hs, hnotable.extends_enqueue hs hrank, m,
        by rw [if_pos rfl, stateAt_enqueue, hnoted], hle⟩
    | false =>
      have hsame := TypeState.le_of_merge_unchanged hmerge
      exact ⟨hnotable.shape_note hs, hnotable.extends_note hs hknown hsame, m,
        hnoted m, hle⟩

end Search

end Code

end ProxyForge
