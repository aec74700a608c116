import ProxyForge.Proofs.Inference.Paired
/-!
# Instructions keep the order

If an instruction runs on a state, it runs on every paired state below, and the result there is
below its result (`step_mono`). Two places need the side conditions: a store cuts wide values in
two, so the lower state must be paired; and `pop` and `dup` take values of any kind, so the upper
stack must not hold `top`, below which a wide value may lie.
-/

namespace ProxyForge

namespace Code

namespace TypeState

open SlotType (top)
open Outcome

variable {m : MethodHeader} {s s' t t' r' : TypeState} {kind : Kind} {v w : SlotType}

/-! ## The stack -/

theorem push_mono (h : s ≤ s') (hv : v ≤ w) : s.push v ≤ s'.push w :=
  ⟨h.locals, .cons hv h.stack⟩

theorem pop_mono (h : s ≤ s') (hpop : s'.pop = .ok (w, r')) :
    ∃ v r, s.pop = .ok (v, r) ∧ v ≤ w ∧ r ≤ r' := by
  obtain rfl := pop_eq_ok.1 hpop
  obtain ⟨locals, stack⟩ := s
  obtain ⟨hlocals, hstack⟩ := h
  cases hstack with
  | @cons v _ rest _ hv hrest => exact ⟨v, ⟨locals, rest⟩, rfl, hv, hlocals, hrest⟩

theorem popFitting_mono (h : s ≤ s') (hpop : s'.popFitting kind = .ok (w, r')) :
    ∃ v r, s.popFitting kind = .ok (v, r) ∧ v ≤ w ∧ r ≤ r' := by
  obtain ⟨hs', hfits⟩ := popFitting_eq_ok.1 hpop
  obtain ⟨v, r, hs, hv, hr⟩ := pop_mono h (pop_eq_ok.2 hs')
  exact ⟨v, r, popFitting_eq_ok.2 ⟨pop_eq_ok.1 hs, SlotType.fits_of_le hv hfits⟩, hv, hr⟩

theorem dropKind_mono (h : s ≤ s') (hdrop : s'.dropKind kind = .ok r') :
    ∃ r, s.dropKind kind = .ok r ∧ r ≤ r' := by
  obtain ⟨w, hw⟩ := dropKind_eq_ok.1 hdrop
  obtain ⟨v, r, hs, -, hr⟩ := popFitting_mono h (popFitting_eq_ok.2 hw)
  exact ⟨r, dropKind_eq_ok.2 ⟨v, popFitting_eq_ok.1 hs⟩, hr⟩

theorem dropArguments_mono {types : List JvmType} (h : s ≤ s')
    (hdrop : s'.dropArguments types = .ok r') : ∃ r, s.dropArguments types = .ok r ∧ r ≤ r' := by
  induction types generalizing s s' with
  | nil =>
    cases hdrop
    exact ⟨s, rfl, h⟩
  | cons type rest ih =>
    unfold dropArguments at hdrop ⊢
    split at hdrop
    · cases hdrop
    · obtain ⟨q', hq', hrest'⟩ := bind_eq_ok.1 hdrop
      obtain ⟨q, hq, hle⟩ := dropKind_mono h hq'
      obtain ⟨r, hr, hr'⟩ := ih hle hrest'
      exact ⟨r, bind_eq_ok.2 ⟨q, hq, hr⟩, hr'⟩

/-! ## The locals -/

/-- A store keeps the order of locals. Where only the lower side cuts off a second slot, that slot
held nothing, since the lower side is paired. -/
theorem storeLocal_mono {a b : List SlotType} (h : ∀ i, slotAt a i ≤ slotAt b i)
    (ha : ∀ i, isWideAt a i → a[i + 1]? = some top) (hv : v ≤ w) (i j : Nat) :
    slotAt (storeLocal a i kind v) j ≤ slotAt (storeLocal b i kind w) j := by
  rw [slotAt_storeLocal, slotAt_storeLocal]
  by_cases hij : i = j
  · rw [if_pos hij, if_pos hij]
    exact hv
  · rw [if_neg hij, if_neg hij]
    by_cases hb : i + 1 = j ∧ (kind.slots = 2 ∨ (slotAt b i).isWide)
    · rw [if_pos hb]
      exact SlotType.le_top _
    · rw [if_neg hb]
      by_cases hb' : j + 1 = i ∧ (slotAt b j).isWide
      · rw [if_pos hb']
        exact SlotType.le_top _
      · rw [if_neg hb']
        -- only the lower side cuts a slot off here
        split
        · rename_i hcut
          obtain ⟨hj, hcut⟩ := hcut
          rcases hcut with hslots | hwide
          · exact absurd ⟨hj, .inl hslots⟩ hb
          · have htop := (getElem?_eq_top.1 (ha i (by rwa [isWideAt_eq]))).2
            rw [← hj, ← htop]
            exact h (i + 1)
        · split
          · rename_i hfront
            -- the upper side knows no wide value here, so it knows nothing
            by_cases hbtop : slotAt b j = top
            · rw [hbtop]
            · have := SlotType.isWide_eq_of_le (h j) hbtop
              exact absurd ⟨hfront.1, this ▸ hfront.2⟩ hb'
          · exact h j

/-- Completing a fresh object keeps the order. -/
theorem replace_mono {old new : SlotType} (h : s ≤ s') (hold : old.isFresh) :
    s.replace old new ≤ s'.replace old new := by
  have hslot : ∀ x y : SlotType, x ≤ y →
      (if x = old then new else x) ≤ (if y = old then new else y) := by
    intro x y hxy
    by_cases hy : y = old
    · rw [if_pos hy, if_pos (hy ▸ SlotType.eq_of_le_fresh hxy (hy ▸ hold))]
    · rw [if_neg hy]
      split
      · rename_i hx
        rcases SlotType.eq_or_top_of_fresh_le hxy (hx ▸ hold) with h | rfl
        · exact absurd (h.trans hx) hy
        · exact SlotType.le_top _
      · exact hxy
  refine ⟨fun i => ?_, ?_⟩
  · rw [slotAt_replace (SlotType.ne_top_of_fresh hold),
      slotAt_replace (SlotType.ne_top_of_fresh hold)]
    exact hslot _ _ (h.locals i)
  · simp only [replace]
    rw [List.forall₂_map_left_iff, List.forall₂_map_right_iff]
    exact h.stack.imp hslot

/-! ## Calls -/

theorem dropReceiver_mono {call : CallKind} {method : MethodRef} (h : s ≤ s')
    (hdrop : s'.dropReceiver m call method = .ok r') :
    ∃ r, s.dropReceiver m call method = .ok r ∧ r ≤ r' := by
  unfold dropReceiver at hdrop ⊢
  split at hdrop
  · cases hdrop
    exact ⟨s, rfl, h⟩
  · obtain ⟨⟨w, q'⟩, hpop', hrest'⟩ := bind_eq_ok.1 hdrop
    obtain ⟨v, q, hpop, hv, hq⟩ := popFitting_mono h hpop'
    dsimp only at hrest'
    split at hrest'
    · rename_i hinit
      obtain ⟨new, hnew, hresult⟩ := bind_eq_ok.1 hrest'
      cases hresult
      obtain ⟨hfresh, -⟩ := constructed_eq_ok hnew
      -- below a fresh object lies only itself, so the same object is completed
      obtain rfl := SlotType.eq_of_le_fresh hv hfresh
      refine ⟨q.replace v new, bind_eq_ok.2 ⟨(v, q), hpop, ?_⟩, replace_mono hq hfresh⟩
      dsimp only
      rw [if_pos hinit]
      exact bind_eq_ok.2 ⟨new, hnew, rfl⟩
    · rename_i hinit
      cases hrest'
      refine ⟨q, bind_eq_ok.2 ⟨(v, q), hpop, ?_⟩, hq⟩
      dsimp only
      rw [if_neg hinit]
      rfl

theorem call_mono {call : CallKind} {method : MethodRef} (h : s ≤ s')
    (hcall : s'.call m call method = .ok t') : ∃ t, s.call m call method = .ok t ∧ t ≤ t' := by
  unfold TypeState.call at hcall ⊢
  split at hcall
  · cases hcall
  · obtain ⟨q', hq', hrest'⟩ := bind_eq_ok.1 hcall
    obtain ⟨r', hr', hresult'⟩ := bind_eq_ok.1 hrest'
    obtain ⟨q, hq, hqle⟩ := dropArguments_mono h hq'
    obtain ⟨r, hr, hrle⟩ := dropReceiver_mono hqle hr'
    split at hresult'
    · rename_i v _
      cases hresult'
      exact ⟨r.push v, bind_eq_ok.2 ⟨q, hq, bind_eq_ok.2 ⟨r, hr, rfl⟩⟩,
        push_mono hrle (le_refl v)⟩
    · cases hresult'
      exact ⟨r, bind_eq_ok.2 ⟨q, hq, bind_eq_ok.2 ⟨r, hr, rfl⟩⟩, hrle⟩

/-! ## Every instruction -/

/-- An element of an array of a smaller type is smaller. -/
theorem elementOf_mono {array : SlotType} (h : v ≤ array) (helem : elementOf array = .ok w) :
    ∃ x, elementOf v = .ok x ∧ x ≤ w := by
  cases h with
  | refl => exact ⟨w, helem, le_refl w⟩
  | top => cases helem
  -- an element of null is null
  | null name =>
    refine ⟨.null, rfl, ?_⟩
    simp only [elementOf] at helem
    repeat' split at helem
    all_goals cases helem <;> exact .null _
  | root name =>
    -- the root class is no array
    exact absurd helem (by simp [elementOf, objectClass])

/-- **Instructions are monotone.** -/
theorem step_mono {L : Type} {op : Op L} {offset : Nat} (h : s ≤ s') (hs : s.Paired)
    (htop : top ∉ s'.stack) (hstep : s'.step m offset op = .ok t') :
    ∃ t, s.step m offset op = .ok t ∧ t ≤ t' := by
  cases op with
  | null | int _ | string _ | classOf _ | new _ =>
    cases hstep
    exact ⟨_, rfl, push_mono h (le_refl _)⟩
  | load kind index =>
    simp only [step] at hstep ⊢
    split at hstep
    · cases hstep
    · rename_i w hw
      split at hstep
      · rename_i hfits
        cases hstep
        have hle := h.locals index.toNat
        rw [slotAt_of_getElem? hw] at hle
        -- the lower slot holds a value of the kind too, so it is there
        have hfits' := SlotType.fits_of_le hle hfits
        rw [getElem?_of_slotAt (SlotType.ne_top_of_fits hfits')]
        refine ⟨s.push _, ?_, push_mono h hle⟩
        dsimp only
        rw [if_pos hfits']
      · cases hstep
  | store kind index =>
    obtain ⟨⟨w, r'⟩, hpop', hresult'⟩ := bind_eq_ok.1 hstep
    obtain ⟨v, r, hpop, hv, hr⟩ := popFitting_mono h hpop'
    cases hresult'
    obtain ⟨rfl, -⟩ := popFitting_eq_ok.1 hpop
    exact ⟨_, bind_eq_ok.2 ⟨(v, r), hpop, rfl⟩,
      ⟨fun j => storeLocal_mono hr.locals hs.locals hv _ j, hr.stack⟩⟩
  | arrayLoad =>
    obtain ⟨r', hr', hrest'⟩ := bind_eq_ok.1 hstep
    obtain ⟨⟨array, q'⟩, hq', hlast'⟩ := bind_eq_ok.1 hrest'
    obtain ⟨w, hw, hresult'⟩ := bind_eq_ok.1 hlast'
    cases hresult'
    obtain ⟨r, hr, hrle⟩ := dropKind_mono h hr'
    obtain ⟨v, q, hq, hv, hqle⟩ := popFitting_mono hrle hq'
    obtain ⟨x, hx, hxw⟩ := elementOf_mono hv hw
    exact ⟨q.push x, bind_eq_ok.2 ⟨r, hr, bind_eq_ok.2 ⟨(v, q), hq,
      bind_eq_ok.2 ⟨x, hx, rfl⟩⟩⟩, push_mono hqle hxw⟩
  | arrayStore =>
    obtain ⟨r', hr', hrest'⟩ := bind_eq_ok.1 hstep
    obtain ⟨q', hq', hlast'⟩ := bind_eq_ok.1 hrest'
    obtain ⟨r, hr, hrle⟩ := dropKind_mono h hr'
    obtain ⟨q, hq, hqle⟩ := dropKind_mono hrle hq'
    obtain ⟨t, ht, htle⟩ := dropKind_mono hqle hlast'
    exact ⟨t, bind_eq_ok.2 ⟨r, hr, bind_eq_ok.2 ⟨q, hq, ht⟩⟩, htle⟩
  | pop =>
    obtain ⟨⟨w, r'⟩, hpop', hresult'⟩ := bind_eq_ok.1 hstep
    obtain ⟨v, r, hpop, hv, hr⟩ := pop_mono h hpop'
    have hw : w ≠ top := by
      rintro rfl
      rw [pop_eq_ok.1 hpop'] at htop
      exact htop List.mem_cons_self
    dsimp only at hresult'
    split at hresult'
    · cases hresult'
    · rename_i hwide
      cases hresult'
      refine ⟨r, bind_eq_ok.2 ⟨(v, r), hpop, ?_⟩, hr⟩
      dsimp only
      -- below a known value lie values of its width, so the check has the same result
      rw [SlotType.isWide_eq_of_le hv hw, if_neg hwide]
      rfl
  | dup =>
    simp only [step] at hstep ⊢
    split at hstep
    · cases hstep
    · rename_i w rest' hs'
      split at hstep
      · cases hstep
      · rename_i hwide
        cases hstep
        have hw : w ≠ top := by
          rintro rfl
          exact htop (hs' ▸ List.mem_cons_self)
        have hpop' : s'.pop = .ok (w, ⟨s'.locals, rest'⟩) := pop_eq_ok.2 (by rw [← hs'])
        obtain ⟨v, r, hpop, hv, -⟩ := pop_mono h hpop'
        have hstack : s.stack = v :: r.stack := by rw [pop_eq_ok.1 hpop]
        refine ⟨s.push v, ?_, push_mono h hv⟩
        rw [hstack]
        dsimp only
        rw [SlotType.isWide_eq_of_le hv hw, if_neg hwide]
  | ret kind =>
    cases kind with
    | none =>
      cases hstep
      exact ⟨s, rfl, h⟩
    | some kind => exact dropKind_mono h hstep
  | getStatic field =>
    obtain ⟨v, hv, hresult'⟩ := bind_eq_ok.1 hstep
    cases hresult'
    exact ⟨s.push v, bind_eq_ok.2 ⟨v, hv, rfl⟩, push_mono h (le_refl v)⟩
  | putStatic field =>
    obtain ⟨⟨w, r'⟩, hpop', hresult'⟩ := bind_eq_ok.1 hstep
    cases hresult'
    obtain ⟨v, r, hpop, -, hr⟩ := pop_mono h hpop'
    exact ⟨r, bind_eq_ok.2 ⟨(v, r), hpop, rfl⟩, hr⟩
  | getField field =>
    obtain ⟨r', hr', hrest'⟩ := bind_eq_ok.1 hstep
    obtain ⟨v, hv, hresult'⟩ := bind_eq_ok.1 hrest'
    cases hresult'
    obtain ⟨r, hr, hrle⟩ := dropKind_mono h hr'
    exact ⟨r.push v, bind_eq_ok.2 ⟨r, hr, bind_eq_ok.2 ⟨v, hv, rfl⟩⟩,
      push_mono hrle (le_refl v)⟩
  | putField field =>
    obtain ⟨⟨w, r'⟩, hpop', hrest'⟩ := bind_eq_ok.1 hstep
    obtain ⟨v, r, hpop, -, hr⟩ := pop_mono h hpop'
    obtain ⟨t, ht, htle⟩ := dropKind_mono hr hrest'
    exact ⟨t, bind_eq_ok.2 ⟨(v, r), hpop, ht⟩, htle⟩
  | invoke call method => exact call_mono h hstep
  | newArray element =>
    obtain ⟨r', hr', hresult'⟩ := bind_eq_ok.1 hstep
    cases hresult'
    obtain ⟨r, hr, hrle⟩ := dropKind_mono h hr'
    exact ⟨r.push _, bind_eq_ok.2 ⟨r, hr, rfl⟩, push_mono hrle (le_refl _)⟩
  | cast name =>
    obtain ⟨r', hr', hresult'⟩ := bind_eq_ok.1 hstep
    cases hresult'
    obtain ⟨r, hr, hrle⟩ := dropKind_mono h hr'
    exact ⟨r.push _, bind_eq_ok.2 ⟨r, hr, rfl⟩, push_mono hrle (le_refl _)⟩
  | throw | monitorEnter | monitorExit | lookupSwitch _ _ => exact dropKind_mono h hstep
  | jump kind target =>
    cases kind with
    | always =>
      cases hstep
      exact ⟨s, rfl, h⟩
    | ifNull | ifNonNull => exact dropKind_mono h hstep

end TypeState

end Code

end ProxyForge
