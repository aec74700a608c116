import ProxyForge.Proofs.Inference.Visit
/-!
# The end of the search

`Search.run` looks at pending positions until there is none. `Searching` is what its steps keep,
and each of them lowers the potential, so the fuel that `Search.infer` gives is never used up
(`run_spec`). When nothing is pending, every instruction is settled for the state that is known
there (`infer_spec`): the result is a typing (`Inferred.typing`).
-/

namespace ProxyForge

namespace Code

namespace Search

open SlotType (top)
open Outcome

variable {c : Context} {bound : Nat} {entry : TypeState} {s s' : Search} {i : Nat}
  {rest : List Nat} {t before : TypeState} {op : Op Nat}

/-! ## The loop -/

/-- **What the loop keeps.** What is known at a position that is not pending is settled. -/
structure Searching (c : Context) (bound : Nat) (entry : TypeState) (s : Search) : Prop where
  shape : Shape c bound s
  entered : s.Delivered 0 entry
  settled : ∀ i t, s.stateAt i = some t → ¬ s.Queued i → ∃ op after, Settled c s i t op after

/-- The search without the first pending position. -/
def dequeue (s : Search) (i : Nat) (rest : List Nat) : Search :=
  { s with
    pending := rest
    queued := s.queued.setIfInBounds i false }

theorem queued_dequeue (i : Nat) (rest : List Nat) (j : Nat) :
    (s.dequeue i rest).Queued j ↔ j ≠ i ∧ s.Queued j := by
  unfold dequeue Queued
  rw [Array.getElem?_setIfInBounds]
  by_cases hij : i = j
  · subst hij
    simp only [if_true, ne_eq, not_true, false_and, iff_false]
    split <;> simp
  · rw [if_neg hij]
    simp [Ne.symm hij]

namespace Shape

theorem dequeue (hs : Shape c bound s) (hpending : s.pending = i :: rest) :
    Shape c bound (s.dequeue i rest) where
  states_size := hs.states_size
  queued_size := by
    rw [← hs.queued_size]
    exact Array.size_setIfInBounds
  mem_pending j := by
    have hnodup := hs.nodup
    have hmem := hs.mem_pending j
    rw [hpending, List.mem_cons] at hmem
    rw [hpending, List.nodup_cons] at hnodup
    rw [queued_dequeue, ← hmem]
    change j ∈ rest ↔ _
    constructor
    · intro hj
      exact ⟨fun h => hnodup.1 (h ▸ hj), .inr hj⟩
    · rintro ⟨hne, hj⟩
      exact hj.resolve_left hne
  nodup := by
    have hnodup := hs.nodup
    rw [hpending] at hnodup
    exact (List.nodup_cons.1 hnodup).2
  known_of_queued j hj := hs.known_of_queued j ((queued_dequeue i rest j).1 hj).2
  admits j t ht := { hs.admits j t ht with }
  height := hs.height

theorem potential_dequeue (c : Context) (bound : Nat) (hpending : s.pending = i :: rest) :
    (s.dequeue i rest).potential c bound + 1 = s.potential c bound := by
  unfold potential
  rw [hpending, List.length_cons]
  change rest.length + _ + 1 = rest.length + 1 + _
  simp only [Search.dequeue, stateAt]
  omega

/-- The first pending position is an instruction at which something is known. -/
theorem exists_of_pending (hs : Shape c bound s) (hpending : s.pending = i :: rest) :
    ∃ op before, c.ops[i]? = some op ∧ s.stateAt i = some before := by
  have hqueued : s.Queued i := (hs.mem_pending i).1 (hpending ▸ List.mem_cons_self)
  obtain ⟨before, hbefore⟩ := hs.known_of_queued i hqueued
  have hi : i < c.ops.size := by
    rw [← hs.queued_size]
    exact (Array.getElem?_eq_some_iff.1 hqueued).1
  exact ⟨c.ops[i], before, Array.getElem?_eq_getElem hi, hbefore⟩

end Shape

theorem advance_eq (hop : c.ops[i]? = some op) (hbefore : s.stateAt i = some before) :
    { s with pending := rest }.advance c i = (s.dequeue i rest).visit c i op before := by
  have hbefore' : stateAt { s with
      pending := rest
      queued := s.queued.setIfInBounds i false } i = some before :=
    hbefore
  unfold advance dequeue
  rw [hop]
  dsimp only
  rw [hbefore']

namespace Searching

/-- **Looking at one position** keeps the invariant and comes closer to the end. -/
theorem advance (hc : c.Valid) (hbound : c.ReachesBelow bound)
    (h : Searching c bound entry s) (hpending : s.pending = i :: rest)
    (hadvance : { s with pending := rest }.advance c i = .ok s') :
    Searching c bound entry s' ∧ s'.potential c bound < s.potential c bound := by
  have hs := h.shape
  obtain ⟨op, before, hop, hbefore⟩ := hs.exists_of_pending hpending
  rw [advance_eq hop hbefore] at hadvance
  obtain ⟨hs', hext, after, hsettled⟩ :=
    visit_spec hc (hs.dequeue hpending) hbound hop hbefore hadvance
  have hpotential := Shape.potential_dequeue c bound hpending
  refine ⟨⟨hs', hext.delivered h.entered, fun j t ht hq => ?_⟩, ?_⟩
  · -- a state that is new or that rose is pending, so this one was known before and did not rise
    rcases hknown : s.stateAt j with - | u
    · exact absurd (hext.fresh j t hknown ht) hq
    · obtain ⟨t', ht', -, hge⟩ := hext.known j u hknown
      cases ht.symm.trans ht'
      have hpaired := (hs'.admits j t ht).paired
      have hu := (hs.admits j u hknown).paired
      -- the instruction that was looked at, and any other one
      by_cases hij : j = i
      · subst hij
        cases hbefore.symm.trans hknown
        obtain ⟨after', h'⟩ := hsettled.of_le hu hpaired (hge hq)
        exact ⟨op, after', h'⟩
      · have hq₀ : ¬ (s.dequeue i rest).Queued j := fun h => hq (hext.queued j h)
        have hqs : ¬ s.Queued j := fun h => hq₀ ((queued_dequeue i rest j).2 ⟨hij, h⟩)
        obtain ⟨op', after', h'⟩ := h.settled j u hknown hqs
        -- what was settled before is settled in the search that goes on
        have h₀ : Settled c (s.dequeue i rest) j u op' after' := { h' with }
        obtain ⟨after'', h''⟩ := (h₀.of_extends hext).of_le hu hpaired (hge hq)
        exact ⟨op', after'', h''⟩
  · have := hext.potential
    omega

end Searching

/-- **What the loop keeps**: it has ended, or each time it came closer to its end. -/
theorem run_keeps (hc : c.Valid) (hbound : c.ReachesBelow bound) {fuel : Nat}
    (h : Searching c bound entry s) (hrun : s.run c fuel = .ok s') :
    Searching c bound entry s' ∧
      (s'.pending = [] ∨ s'.potential c bound + fuel ≤ s.potential c bound) := by
  induction fuel generalizing s with
  | zero =>
    cases hrun
    exact ⟨h, .inr (le_refl _)⟩
  | succ fuel ih =>
    unfold run at hrun
    split at hrun
    · rename_i hpending
      cases hrun
      exact ⟨h, .inl hpending⟩
    · rename_i hpending
      obtain ⟨s₁, hadvance, hrest⟩ := bind_eq_ok.1 hrun
      obtain ⟨h₁, hlt⟩ := h.advance hc hbound hpending hadvance
      obtain ⟨h', hend⟩ := ih h₁ hrest
      exact ⟨h', hend.imp_right fun hle => by omega⟩

/-- **Enough fuel.** The loop ends because nothing is pending any more. -/
theorem run_spec (hc : c.Valid) (hbound : c.ReachesBelow bound) {fuel : Nat}
    (h : Searching c bound entry s) (hfuel : s.potential c bound ≤ fuel)
    (hrun : s.run c fuel = .ok s') : Searching c bound entry s' ∧ s'.pending = [] := by
  obtain ⟨h', hend | hle⟩ := run_keeps hc hbound h hrun
  · exact ⟨h', hend⟩
  · -- what is pending counts, so without potential nothing is
    refine ⟨h', List.eq_nil_of_length_eq_zero ?_⟩
    unfold potential at hle hfuel
    omega

/-! ## The start -/

theorem stateAt_start {size : Nat} (hsize : 0 < size) (i : Nat) :
    (start size entry).stateAt i = if i = 0 then some entry else none := by
  unfold start stateAt
  rw [Array.getElem?_setIfInBounds]
  by_cases hi : i = 0
  · subst hi
    simp [hsize]
  · rw [if_neg (Ne.symm hi), if_neg hi]
    by_cases hlt : i < size <;> simp [hlt]

theorem queued_start {size : Nat} (hsize : 0 < size) (i : Nat) :
    (start size entry).Queued i ↔ i = 0 := by
  unfold start Queued
  rw [Array.getElem?_setIfInBounds]
  by_cases hi : i = 0
  · subst hi
    simp [hsize]
  · rw [if_neg (Ne.symm hi)]
    by_cases hlt : i < size <;> simp [hlt, hi]

theorem discovered_start (hsize : 0 < c.ops.size) :
    (start c.ops.size entry).discovered c = {0} := by
  ext i
  simp only [discovered, stateAt_start hsize, Finset.mem_filter, Finset.mem_range,
    Finset.mem_singleton]
  by_cases hi : i = 0
  · simp [hi, hsize]
  · simp [hi]

/-- **The search starts** with the first position pending, where nothing is on the stack. -/
theorem searching_start (hsize : 0 < c.ops.size) (hentry : entry.Paired)
    (hstack : entry.stack = []) (hlocals : entry.locals.length ≤ bound) :
    Searching c bound entry (start c.ops.size entry) where
  shape :=
    { states_size := by simp [start]
      queued_size := by simp [start]
      mem_pending := fun i => by
        rw [queued_start hsize]
        exact List.mem_singleton
      nodup := List.nodup_singleton 0
      known_of_queued := fun i hi => by
        obtain rfl := (queued_start hsize i).1 hi
        exact ⟨entry, by rw [stateAt_start hsize, if_pos rfl]⟩
      admits := fun i t ht => by
        rw [stateAt_start hsize] at ht
        split at ht
        · rename_i hi
          cases ht
          exact ⟨hi ▸ .refl, hentry, hlocals, by simp [hstack]⟩
        · cases ht
      height := fun i t ht => by
        rw [stateAt_start hsize] at ht
        split at ht
        · cases ht
          simp [hstack, discovered_start hsize]
        · cases ht }
  entered := ⟨entry, by rw [stateAt_start hsize, if_pos rfl], le_refl entry⟩
  settled i t ht hq := by
    rw [stateAt_start hsize] at ht
    split at ht
    · rename_i hi
      exact absurd ((queued_start hsize i).2 hi) hq
    · cases ht

/-- After so many rounds the loop has ended: at each position something becomes known, and then it
rises no more often than the order is high. -/
def roundLimit (size bound : Nat) : Nat :=
  1 + size * (2 * size + 3 * bound + 1)

theorem potential_start_le (entry : TypeState) (hstack : entry.stack = []) :
    (start c.ops.size entry).potential c bound ≤ roundLimit c.ops.size bound := by
  have hrank : ∀ i ∈ Finset.range c.ops.size,
      rankAt c bound ((start c.ops.size entry).stateAt i) ≤ 2 * c.ops.size + 3 * bound + 1 := by
    intro i hi
    rw [stateAt_start (Nat.pos_of_ne_zero fun h => by simp [h] at hi)]
    split
    · have := TypeState.localsRank_le bound entry.locals
      simp only [rankAt, TypeState.rank, hstack, TypeState.stackRank, List.map_nil, List.sum_nil]
      omega
    · exact le_refl _
  have hsum := Finset.sum_le_card_nsmul _ _ _ hrank
  rw [Finset.card_range] at hsum
  exact Nat.add_le_add_left hsum 1

/-- The fuel of a search is for more rounds than there can be. -/
theorem roundLimit_le_fuelFor {size locals : Nat} (hbound : bound ≤ locals + 65537) :
    roundLimit size bound ≤ fuelFor size locals := by
  unfold roundLimit fuelFor
  -- each factor of the fuel is the greater one
  have hmul : size * (2 * size + 3 * bound + 1) ≤
      size * (2 * (size + 2) + 3 * (locals + 65538) + 4) :=
    Nat.mul_le_mul_left _ (by omega)
  rw [Nat.add_mul, Nat.one_mul]
  omega

/-- The fuel of a search is more than it needs. -/
theorem potential_start_le_fuelFor (entry : TypeState) (hstack : entry.stack = [])
    (hbound : bound ≤ entry.locals.length + 65537) :
    (start c.ops.size entry).potential c bound ≤ fuelFor c.ops.size entry.locals.length :=
  le_trans (potential_start_le entry hstack) (roundLimit_le_fuelFor hbound)

/-! ## The result -/

/-- **What a search has found** when it ends: a state at every instruction, for which the
instruction is settled. -/
structure Inferred (c : Context) (bound : Nat) (entry : TypeState) (s : Search) : Prop where
  shape : Shape c bound s
  entered : s.Delivered 0 entry
  known : ∀ i < c.ops.size, ∃ t op after, s.stateAt i = some t ∧ Settled c s i t op after

theorem infer_eq_ok (h : infer c entry = .ok s) :
    (start c.ops.size entry).run c (fuelFor c.ops.size entry.locals.length) = .ok s ∧
      ∀ i < s.states.size, ∃ t, s.stateAt i = some t := by
  unfold infer at h
  obtain ⟨s', hrun, hresult⟩ := bind_eq_ok.1 h
  split at hresult
  · cases hresult
  · rename_i hnone
    cases hresult
    refine ⟨hrun, fun i hi => ?_⟩
    rw [Array.findIdx?_eq_none_iff] at hnone
    have hsome := hnone _ (Array.getElem_mem hi)
    obtain ⟨t, ht⟩ := Option.isSome_iff_exists.1 (by simpa using hsome)
    refine ⟨t, ?_⟩
    unfold stateAt
    rw [Array.getElem?_eq_getElem hi, ht]
    rfl

/-- **A search that succeeds** has looked at every instruction. -/
theorem infer_spec (hc : c.Valid) (hbound : c.ReachesBelow bound) (hsize : 0 < c.ops.size)
    (hentry : entry.Paired) (hstack : entry.stack = []) (hlocals : entry.locals.length ≤ bound)
    (hle : bound ≤ entry.locals.length + 65537) (h : infer c entry = .ok s) :
    Inferred c bound entry s := by
  obtain ⟨hrun, hall⟩ := infer_eq_ok h
  obtain ⟨hsearching, hpending⟩ := run_spec hc hbound
    (searching_start hsize hentry hstack hlocals) (potential_start_le_fuelFor entry hstack hle) hrun
  have hs := hsearching.shape
  refine ⟨hs, hsearching.entered, fun i hi => ?_⟩
  obtain ⟨t, ht⟩ := hall i (hs.states_size ▸ hi)
  have hq : ¬ s.Queued i := fun hq => by
    have := (hs.mem_pending i).2 hq
    rw [hpending] at this
    exact List.not_mem_nil this
  obtain ⟨op, after, hsettled⟩ := hsearching.settled i t ht hq
  exact ⟨t, op, after, ht, hsettled⟩

end Search

end Code

end ProxyForge
