import ProxyForge.Proofs.Inference.Termination
/-!
# What a search records

`TypeState.Paired` is an invariant of the search for frames: it holds of every state that is
recorded at some position and of every state that arrives at one, after any number of rounds
(`Recorded.run`) and between two arrivals of a round that may fail later (`Recorded.flows`).
-/

namespace ProxyForge

namespace Code

open Outcome

namespace Search

variable {c : Context} {entry : TypeState} {s s' : Search} {i j : Nat} {t before after : TypeState}
  {op : Op Nat}

/-- **Only paired states are recorded.** -/
def Recorded (s : Search) : Prop :=
  ∀ i t, s.stateAt i = some t → t.Paired

theorem recorded_start (size : Nat) (he : entry.Paired) : (start size entry).Recorded := by
  intro i t ht
  rcases Nat.eq_zero_or_pos size with rfl | hsize
  · simp [start, stateAt] at ht
  · rw [stateAt_start hsize] at ht
    split at ht <;> cases ht
    exact he

namespace Recorded

/-! ## One arrival -/

theorem note (hs : s.Recorded) (ht : t.Paired) (j : Nat) : (s.note j t).Recorded := by
  intro i u hu
  by_cases hj : j < s.states.size
  · rw [stateAt_note hj] at hu
    split at hu
    · cases hu
      exact ht
    · exact hs i u hu
  · -- nothing is noted outside the code
    refine hs i u ?_
    rwa [Search.note, Array.setIfInBounds, dif_neg hj] at hu

theorem enqueue (hs : s.Recorded) (j : Nat) : (s.enqueue j).Recorded :=
  fun i t ht => hs i t (by rwa [stateAt_enqueue] at ht)

/-- **An arrival records a paired state**: the one that arrives, or the one that it is merged
with. -/
theorem flow (hs : s.Recorded) (ht : t.Paired) (h : s.flow c j t = .ok s') : s'.Recorded := by
  rcases flow_eq_ok h with ⟨-, rfl⟩ | ⟨known, m, changed, hknown, hmerge, rfl⟩
  · exact (hs.note ht j).enqueue j
  · have hm := hs.note ((hs j known hknown).merge ht hmerge) j
    split
    · exact hm.enqueue j
    · exact hm

/-- **Any of the arrivals behind one instruction**, in any order: what is recorded before the next
one is paired. -/
theorem flows (hc : c.Valid) (hs : s.Recorded) (hbefore : before.Paired) (hafter : after.Paired)
    {arrivals : List (Nat × TypeState)}
    (harrive : ∀ a ∈ arrivals, c.Arrives i before after a.1 a.2)
    (h : arrivals.foldlM (fun s a => s.flow c a.1 a.2) s = .ok s') : s'.Recorded :=
  foldlM_induct (P := Recorded) (fun a ha _ _ hu hflow =>
    hu.flow ((harrive a ha).paired hc hbefore hafter) hflow) hs h

/-! ## One round, and all of them -/

theorem advance (hc : c.Valid) (hs : s.Recorded) (h : s.advance c i = .ok s') : s'.Recorded := by
  unfold Search.advance at h
  dsimp only at h
  split at h
  · next op before hop hbefore =>
    have hpaired : before.Paired := hs i before hbefore
    have hs₀ : Recorded { s with queued := s.queued.setIfInBounds i false } := hs
    refine visit_induct hc hop (P := Recorded) (fun _ _ hu => hu) ?_ hs₀ h
    intro after j t u u' hstep harrives _ hu hflow
    exact hu.flow (harrives.paired hc hpaired (hpaired.step hstep)) hflow
  · cases h
    exact hs

/-- **Round after round** only paired states are recorded. -/
theorem run (hc : c.Valid) {rounds : Nat} (hs : s.Recorded) (h : s.run c rounds = .ok s') :
    s'.Recorded := by
  induction rounds generalizing s with
  | zero =>
    cases h
    exact hs
  | succ rounds ih =>
    unfold Search.run at h
    split at h
    · cases h
      exact hs
    · next rest _ =>
      obtain ⟨s₁, hadvance, hrest⟩ := bind_eq_ok.1 h
      have hs₀ : Recorded { s with pending := rest } := hs
      exact ih (hs₀.advance hc hadvance) hrest

end Recorded

end Search

end Code

end ProxyForge
