import ProxyForge.Proofs.Inference.Typing
/-!
# Where fresh objects come from

A fresh object that is known anywhere in a method names the instruction that made it
(`TypeState.Made`). This is not a matter of the search: it holds of what any run brings along, and
what is known at an instruction lies above that.
-/

namespace ProxyForge

namespace Code

open SlotType (top)

variable {c : Context} {s t : TypeState} {i : Nat} {op : Op Nat}

namespace TypeState

/-- The value lies in one of the slots. -/
def Holds (s : TypeState) (v : SlotType) : Prop :=
  v ∈ s.locals ∨ v ∈ s.stack

/-- **Fresh objects come from the instructions they name.** -/
def Made (c : Context) (s : TypeState) : Prop :=
  ∀ (offset : Nat) (name : String), s.Holds (.uninitialized offset name) →
    ∃ i, c.ops[i]? = some (.new name) ∧ c.offsetAt i = offset

theorem mem_of_slotAt {locals : List SlotType} {v : SlotType} (h : slotAt locals i = v)
    (hv : v ≠ top) : v ∈ locals := by
  subst h
  exact List.mem_of_getElem? (getElem?_of_slotAt hv)

theorem exists_slotAt {locals : List SlotType} {v : SlotType} (h : v ∈ locals) :
    ∃ i, slotAt locals i = v := by
  obtain ⟨i, hi⟩ := List.mem_iff_getElem?.1 h
  exact ⟨i, slotAt_of_getElem? hi⟩

/-- What lies fresh in a state lies in every state below. -/
theorem Holds.of_le (hle : s ≤ t) {v : SlotType} (hv : v.isFresh) (h : t.Holds v) : s.Holds v := by
  have htop := SlotType.ne_top_of_fresh hv
  rcases h with h | h
  · obtain ⟨i, hi⟩ := exists_slotAt h
    have heq := SlotType.eq_of_le_fresh (hi ▸ hle.locals i) hv
    exact .inl (mem_of_slotAt heq htop)
  · obtain ⟨k, hk⟩ := List.mem_iff_getElem?.1 h
    obtain ⟨w, hw, hwv⟩ := Outcome.getElem?_of_forall₂ hle.stack hk
    rw [SlotType.eq_of_le_fresh hwv hv] at hw
    exact .inr (List.mem_of_getElem? hw)

/-- What is known above is known of the same instructions. -/
theorem Made.of_le (hs : s.Made c) (hle : s ≤ t) : t.Made c :=
  fun offset name h => hs offset name (h.of_le hle rfl)

theorem mem_storeLocal {locals : List SlotType} {kind : Kind} {v w : SlotType} (hw : w ≠ top)
    (h : w ∈ storeLocal locals i kind v) : w = v ∨ w ∈ locals := by
  obtain ⟨j, hj⟩ := exists_slotAt h
  rw [slotAt_storeLocal] at hj
  split at hj
  · exact .inl hj.symm
  · split at hj
    · exact absurd hj.symm hw
    · split at hj
      · exact absurd hj.symm hw
      · exact .inr (mem_of_slotAt hj hw)

/-- **An instruction makes fresh objects under its own name.** -/
theorem Made.effect (hs : s.Made c) (hop : c.ops[i]? = some op)
    (h : Effect (c.offsetAt i) op s t) : t.Made c := by
  -- completing an object makes no fresh one
  have hreplaced : ∀ (v : SlotType) (name : String) (ts : List SlotType) (w : SlotType),
      w.isFresh → w ∈ ts.map (fun t => if t = v then .object name else t) → w ∈ ts := by
    intro v name ts w hw hmem
    obtain ⟨x, hx, hxw⟩ := List.mem_map.1 hmem
    split at hxw
    · rw [← hxw] at hw
      simp [SlotType.isFresh] at hw
    · rwa [← hxw]
  intro offset name hholds
  cases h with
  | stack dropped rest pushed heq hlen hpushed =>
    rcases hholds with h | h
    · exact hs offset name (.inl h)
    · rcases List.mem_append.1 h with h | h
      · -- a fresh object on top was there before, or this instruction makes it
        rcases (hpushed _ h).2 rfl with h | h | ⟨name', hnew, hv⟩
        · exact hs offset name (.inl h)
        · exact hs offset name (.inr h)
        · cases hv
          exact ⟨i, hnew ▸ hop, rfl⟩
      · exact hs offset name (.inr (heq ▸ List.mem_append_right _ h))
  | store hstore heq hv =>
    refine hs offset name ?_
    unfold Holds
    rw [heq]
    rcases hholds with h | h
    · rcases mem_storeLocal SlotType.noConfusion h with h | h
      · exact .inr (List.mem_cons.2 (.inl h))
      · exact .inl h
    · exact .inr (List.mem_cons_of_mem _ h)
  | complete dropped rest pushed name' heq hv hlen hpushed =>
    refine hs offset name ?_
    rcases hholds with h | h
    · exact .inl (hreplaced _ _ _ _ rfl h)
    · right
      rcases List.mem_append.1 h with h | h
      · exact absurd (hpushed _ h).2 (by simp [SlotType.isFresh])
      · rw [heq]
        exact List.mem_append_right _ (List.mem_cons_of_mem _ (hreplaced _ _ _ _ rfl h))

/-- What arrives was made where it says. -/
theorem Made.arrives (hc : c.Valid) {j : Nat} {after u : TypeState} (hs : s.Made c)
    (hafter : after.Made c) (h : c.Arrives i s after j u) : u.Made c := by
  have hcaught : ∀ {t : TypeState} {g : Guard}, t.Made c → g ∈ c.guards →
      (⟨t.locals, [g.caught]⟩ : TypeState).Made c := by
    intro t g ht hg offset name hholds
    obtain ⟨caught, hcaught⟩ := hc.caught_object g hg
    rcases hholds with h | h
    · exact ht offset name (.inl h)
    · rw [hcaught] at h
      simp at h
  cases h with
  | jump => exact hafter
  | next => exact hafter
  | raisedBefore hg => exact hcaught hs hg
  | raisedAfter hg => exact hcaught hafter hg

end TypeState

namespace Context

variable {entry : TypeState} {known : Nat → TypeState}

/-- **In a typing, fresh objects name their origin** wherever control may come to. -/
theorem Typing.made (hk : c.Typing entry known) (hc : c.Valid) (hin : c.StaysInside)
    (hsize : 0 < c.ops.size) (hentry : entry.Made c) (hi : c.Reachable i) :
    (known i).Made c := by
  unfold Reachable at hi
  induction hi with
  | refl => exact hentry.of_le hk.entry_le
  | @tail i j hreach hleads ih =>
    have hi : i < c.ops.size := Reachable.lt_size hc hin hsize hreach
    have hop : c.ops[i]? = some c.ops[i] := Array.getElem?_eq_getElem hi
    obtain ⟨after, hstep, hall⟩ := hk.step i c.ops[i] hop
    have hafter := ih.effect hop (TypeState.effect_of_step (hk.stack i hi) hstep)
    obtain ⟨t, ht⟩ := hleads.arrives (known i) after
    exact (ih.arrives hc hafter ht).of_le (hall j t ht (ht.lt_size hc hin))

/-! ## Looking an origin up -/

/-- The class of the object that the instruction at an offset makes. -/
def madeAt (c : Context) (offset : Nat) : Option String :=
  (List.range c.ops.size).findSome? fun i =>
    match c.ops[i]? with
    | some (Op.new name) => if c.offsetAt i = offset then some name else none
    | _ => none

theorem madeAt_offsetAt {name : String} (hop : c.ops[i]? = some (.new name))
    (hinj : ∀ j < c.ops.size, c.offsetAt j = c.offsetAt i → j = i) :
    c.madeAt (c.offsetAt i) = some name := by
  have hi : i < c.ops.size := (Array.getElem?_eq_some_iff.1 hop).1
  unfold madeAt
  rcases hfound : (List.range c.ops.size).findSome? _ with - | name'
  · rw [List.findSome?_eq_none_iff] at hfound
    have hnone := hfound i (List.mem_range.2 hi)
    simp [hop] at hnone
  · -- the first match is the instruction itself, as no other one has its offset
    obtain ⟨j, hj, hmatch⟩ := List.exists_of_findSome?_eq_some hfound
    split at hmatch
    · rename_i name'' hnew
      split at hmatch
      · rename_i hoffset
        cases hmatch
        obtain rfl := hinj j (List.mem_range.1 hj) hoffset
        rw [hop] at hnew
        cases hnew
        rfl
      · cases hmatch
    · cases hmatch

end Context

end Code

end ProxyForge
