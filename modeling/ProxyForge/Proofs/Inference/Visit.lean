import ProxyForge.Proofs.Inference.Flow
import ProxyForge.Proofs.Inference.Monotone
/-!
# Looking at one instruction

`Search.visit` sends the states behind an instruction along every way out of it. `visit_spec`: the
search keeps its shape, nothing is undone, and the instruction is `Settled` afterwards. What is
settled stays so while the search goes on (`Settled.of_extends`, `Settled.of_le`).
-/

namespace ProxyForge

namespace Code

namespace Search

open SlotType (top)
open Outcome

variable {c : Context} {bound : Nat} {s s' : Search} {i j : Nat} {t before after : TypeState}
  {op : Op Nat}

/-! ## The stack -/

/-- A stack of some size was seen. -/
def raise (s : Search) (size : UInt16) : Search :=
  { s with maxStack := max s.maxStack size }

theorem toNat_max (m n : UInt16) : (max m n).toNat = max m.toNat n.toNat := by
  change (if m ≤ n then n else m).toNat = _
  split
  · rename_i h
    exact (max_eq_right (UInt16.le_iff_toNat_le.1 h)).symm
  · rename_i h
    exact (max_eq_left (le_of_not_ge (mt UInt16.le_iff_toNat_le.2 h))).symm

theorem maxStack_le_raise (s : Search) (size : UInt16) : s.maxStack ≤ (s.raise size).maxStack := by
  rw [UInt16.le_iff_toNat_le]
  exact (le_max_left _ _).trans_eq (toNat_max _ _).symm

theorem le_raise (s : Search) (size : UInt16) : size ≤ (s.raise size).maxStack := by
  rw [UInt16.le_iff_toNat_le]
  exact (le_max_right _ _).trans_eq (toNat_max _ _).symm

theorem extends_raise (c : Context) (bound : Nat) (s : Search) (size : UInt16) :
    Extends c bound s (s.raise size) :=
  { Extends.refl s with maxStack := maxStack_le_raise s size }

theorem Shape.raise (hs : Shape c bound s) (size : UInt16) : Shape c bound (s.raise size) where
  states_size := hs.states_size
  queued_size := hs.queued_size
  mem_pending := hs.mem_pending
  nodup := hs.nodup
  known_of_queued := hs.known_of_queued
  admits i t ht := { hs.admits i t ht with }
  height := hs.height

/-- Below a stack of known values lie stacks of the same size. -/
theorem stackSize_eq_of_le (h : t ≤ before) (htop : top ∉ before.stack) :
    t.stackSize = before.stackSize := by
  unfold TypeState.stackSize
  generalize (0 : UInt16) = n
  have hstack := h.stack
  generalize t.stack = a, before.stack = b at hstack htop ⊢
  induction hstack generalizing n with
  | nil => rfl
  | cons hxy _ ih =>
    simp only [List.mem_cons, not_or] at htop
    rw [List.foldl_cons, List.foldl_cons, SlotType.slots_eq_of_le hxy (Ne.symm htop.1)]
    exact ih _ htop.2

/-! ## Settled instructions -/

/-- **An instruction that was looked at**: it runs on the state, and all that it passes on is
known where it arrives. -/
structure Settled (c : Context) (s : Search) (i : Nat) (before : TypeState) (op : Op Nat)
    (after : TypeState) : Prop where
  op_eq : c.ops[i]? = some op
  step : before.step c.shape (c.offsetAt i) op = .ok after
  inside : op.isUnconditional = false → i + 1 < c.ops.size
  delivered : ∀ j t, c.Arrives i before after j t → s.Delivered j t
  before_size : before.stackSize ≤ s.maxStack
  after_size : after.stackSize ≤ s.maxStack
  caught_size : ∀ g ∈ c.guards, g.covers i → 1 ≤ s.maxStack

namespace Settled

theorem of_extends (h : Settled c s i before op after) (hext : Extends c bound s s') :
    Settled c s' i before op after where
  op_eq := h.op_eq
  step := h.step
  inside := h.inside
  delivered j t ht := hext.delivered (h.delivered j t ht)
  before_size := UInt16.le_trans h.before_size hext.maxStack
  after_size := UInt16.le_trans h.after_size hext.maxStack
  caught_size g hg hi := UInt16.le_trans (h.caught_size g hg hi) hext.maxStack

/-- What is settled for a state is settled for the states below it. -/
theorem of_le (h : Settled c s i before op after) (hbefore : before.Paired) (ht : t.Paired)
    (hle : t ≤ before) : ∃ after', Settled c s i t op after' := by
  obtain ⟨after', hstep, hafter⟩ := TypeState.step_mono hle ht hbefore.stack h.step
  refine ⟨after', h.op_eq, hstep, h.inside, fun j u hu => ?_, ?_, ?_, h.caught_size⟩
  · obtain ⟨u', hu', hle'⟩ := hu.mono hle hafter
    obtain ⟨known, hknown, hge⟩ := h.delivered j u' hu'
    exact ⟨known, hknown, le_trans hle' hge⟩
  · rw [stackSize_eq_of_le hle hbefore.stack]
    exact h.before_size
  · rw [stackSize_eq_of_le hafter (hbefore.step h.step).stack]
    exact h.after_size

end Settled

/-! ## Several arrivals -/

theorem flowAll_spec {js : List Nat} (hs : Shape c bound s)
    (ht : ∀ j ∈ js, j < c.ops.size ∧ Admits c bound s j t) (h : s.flowAll c t js = .ok s') :
    Shape c bound s' ∧ Extends c bound s s' ∧ ∀ j ∈ js, s'.Delivered j t := by
  unfold flowAll at h
  induction js generalizing s with
  | nil =>
    cases h
    exact ⟨hs, .refl _, fun j hj => absurd hj List.not_mem_nil⟩
  | cons j js ih =>
    rw [List.foldlM_cons] at h
    obtain ⟨s₁, hflow, hrest⟩ := bind_eq_ok.1 h
    obtain ⟨hj, hadmits⟩ := ht j List.mem_cons_self
    obtain ⟨hs₁, hext₁, hdelivered⟩ := flow_spec hs hadmits hj hflow
    obtain ⟨hs', hext, hall⟩ := ih hs₁
      (fun k hk => ⟨(ht k (List.mem_cons_of_mem j hk)).1,
        hext₁.admits (ht k (List.mem_cons_of_mem j hk)).2⟩) hrest
    refine ⟨hs', hext₁.trans hext, fun k hk => ?_⟩
    rcases List.mem_cons.1 hk with rfl | hk
    · exact hext.delivered hdelivered
    · exact hall k hk

/-- **What an exception leaves behind** at the handlers of a list of ranges. -/
theorem flowToHandlers_spec {gs : List Guard} (hs : Shape c bound s)
    (ht : ∀ g ∈ gs, g.handler < c.ops.size ∧
      Admits c bound s g.handler ⟨before.locals, [g.caught]⟩ ∧
      Admits c bound s g.handler ⟨after.locals, [g.caught]⟩)
    (h : gs.foldlM (flowToHandler c before after) s = .ok s') :
    Shape c bound s' ∧ Extends c bound s s' ∧ ∀ g ∈ gs, 1 ≤ s'.maxStack ∧
      s'.Delivered g.handler ⟨before.locals, [g.caught]⟩ ∧
      s'.Delivered g.handler ⟨after.locals, [g.caught]⟩ := by
  induction gs generalizing s with
  | nil =>
    cases h
    exact ⟨hs, .refl _, fun g hg => absurd hg List.not_mem_nil⟩
  | cons g gs ih =>
    rw [List.foldlM_cons] at h
    obtain ⟨s₂, hflow, hrest⟩ := bind_eq_ok.1 h
    obtain ⟨s₁, hflow₁, hflow₂⟩ := bind_eq_ok.1 hflow
    obtain ⟨hj, hbefore, hafter⟩ := ht g List.mem_cons_self
    have hext₀ := extends_raise c bound s 1
    obtain ⟨hs₁, hext₁, hdelivered₁⟩ := flow_spec (hs.raise 1) (hext₀.admits hbefore) hj hflow₁
    have hext₀₁ := hext₀.trans hext₁
    obtain ⟨hs₂, hext₂, hdelivered₂⟩ := flow_spec hs₁ (hext₀₁.admits hafter) hj hflow₂
    have hext₀₂ := hext₀₁.trans hext₂
    obtain ⟨hs', hext, hall⟩ := ih hs₂ (fun g' hg' => by
      obtain ⟨hj', hbefore', hafter'⟩ := ht g' (List.mem_cons_of_mem g hg')
      exact ⟨hj', hext₀₂.admits hbefore', hext₀₂.admits hafter'⟩) hrest
    refine ⟨hs', hext₀₂.trans hext, fun g' hg' => ?_⟩
    rcases List.mem_cons.1 hg' with rfl | hg'
    · exact ⟨UInt16.le_trans (le_raise _ 1) ((hext₁.trans hext₂).trans hext).maxStack,
        (hext₂.trans hext).delivered hdelivered₁, hext.delivered hdelivered₂⟩
    · exact hall g' hg'

/-! ## One instruction -/

/-- What may leave an instruction may arrive. -/
theorem Admits.of_arrives (hc : c.Valid) (hs : Shape c bound s) (hbound : c.ReachesBelow bound)
    (hbefore : s.stateAt i = some before)
    (hop : c.ops[i]? = some op) (hstep : before.step c.shape (c.offsetAt i) op = .ok after)
    (h : c.Arrives i before after j t) : Admits c bound s j t := by
  have hi : i < c.ops.size := (Array.getElem?_eq_some_iff.1 hop).1
  have hadmits := hs.admits i before hbefore
  have heffect := TypeState.effect_of_step hadmits.paired.stack hstep
  have hlocals : after.locals.length ≤ bound :=
    le_trans heffect.length_locals_le (max_le hadmits.locals (hbound i op hop))
  have hheight : after.stack.length ≤ (s.discovered c).card :=
    le_trans heffect.length_stack_le (hs.height i before hbefore)
  have hone : 1 ≤ (s.discovered c).card := Finset.card_pos.2 ⟨i, mem_discovered hi hbefore⟩
  refine ⟨hadmits.reachable.tail ⟨before, after, t, h⟩,
    h.paired hc hadmits.paired (hadmits.paired.step hstep), ?_, ?_⟩
  · cases h with
    | raisedBefore => exact hadmits.locals
    | jump | next | raisedAfter => exact hlocals
  · cases h with
    | jump | next => exact hheight
    | raisedBefore | raisedAfter => exact hone

/-- Control passes on to an instruction. -/
theorem flowOn_spec (hs : Shape c bound s)
    (ht : op.isUnconditional = false → Admits c bound s (i + 1) after)
    (h : s.flowOn c i op after = .ok s') :
    Shape c bound s' ∧ Extends c bound s s' ∧ (op.isUnconditional = false →
      i + 1 < c.ops.size ∧ s'.Delivered (i + 1) after) := by
  unfold flowOn at h
  cases hu : op.isUnconditional with
  | true =>
    rw [hu, if_pos rfl] at h
    cases h
    exact ⟨hs, .refl s, fun h => absurd h.symm Bool.false_ne_true⟩
  | false =>
    rw [hu, if_neg Bool.false_ne_true] at h
    by_cases hlt : c.ops.size ≤ i + 1
    · rw [if_pos hlt] at h
      cases h
    · rw [if_neg hlt] at h
      obtain ⟨hs', hext, hdelivered⟩ := flow_spec hs (ht hu) (not_le.1 hlt) h
      exact ⟨hs', hext, fun _ => ⟨not_le.1 hlt, hdelivered⟩⟩

theorem visit_eq_ok (h : s.visit c i op before = .ok s') : ∃ after s₁ s₂,
    before.step c.shape (c.offsetAt i) op = .ok after ∧
    (c.guards.filter (·.covers i)).foldlM (flowToHandler c before after)
      ((s.raise before.stackSize).raise after.stackSize) = .ok s₁ ∧
    s₁.flowAll c after op.targets = .ok s₂ ∧ s₂.flowOn c i op after = .ok s' := by
  unfold visit at h
  obtain ⟨after, hstep, hrest⟩ := bind_eq_ok.1 h
  obtain ⟨s₁, hguards, hrest₁⟩ := bind_eq_ok.1 hrest
  obtain ⟨s₂, htargets, hnext⟩ := bind_eq_ok.1 hrest₁
  exact ⟨after, s₁, s₂, mapError_eq_ok.1 hstep, hguards, htargets, hnext⟩

/-- **Looking at an instruction** settles it. -/
theorem visit_spec (hc : c.Valid) (hs : Shape c bound s) (hbound : c.ReachesBelow bound)
    (hop : c.ops[i]? = some op) (hbefore : s.stateAt i = some before)
    (h : s.visit c i op before = .ok s') :
    Shape c bound s' ∧ Extends c bound s s' ∧ ∃ after, Settled c s' i before op after := by
  obtain ⟨after, s₁, s₂, hstep, hguards, htargets, hnext⟩ := visit_eq_ok h
  have hadmits : ∀ {j t}, c.Arrives i before after j t → Admits c bound s j t :=
    fun harrives => .of_arrives hc hs hbound hbefore hop hstep harrives
  -- the sizes of the stacks
  have hext₀ : Extends c bound s ((s.raise before.stackSize).raise after.stackSize) :=
    (extends_raise c bound s _).trans (extends_raise c bound _ _)
  have hbeforeSize :
      before.stackSize ≤ ((s.raise before.stackSize).raise after.stackSize).maxStack :=
    UInt16.le_trans (le_raise s _) (maxStack_le_raise _ _)
  have hafterSize :
      after.stackSize ≤ ((s.raise before.stackSize).raise after.stackSize).maxStack :=
    le_raise _ _
  -- the handlers
  obtain ⟨hs₁, hext₁, hcaught⟩ := flowToHandlers_spec ((hs.raise _).raise _) (fun g hg => by
    obtain ⟨hg, hi⟩ := List.mem_filter.1 hg
    exact ⟨hc.handler_lt g hg, hext₀.admits (hadmits (.raisedBefore hg hi)),
      hext₀.admits (hadmits (.raisedAfter hg hi))⟩) hguards
  have hext₀₁ := hext₀.trans hext₁
  -- the targets
  obtain ⟨hs₂, hext₂, hjumps⟩ := flowAll_spec hs₁ (fun j hj =>
    ⟨hc.target_lt i op hop j hj, hext₀₁.admits (hadmits (.jump hop hj))⟩) htargets
  have hext₀₂ := hext₀₁.trans hext₂
  -- the instruction behind
  obtain ⟨hs', hext, hon⟩ :=
    flowOn_spec hs₂ (fun hu => hext₀₂.admits (hadmits (.next hop hu))) hnext
  have hext₁' := hext₂.trans hext
  have hsizes := (hext₁.trans hext₁').maxStack
  refine ⟨hs', hext₀₂.trans hext, after, hop, hstep, fun hu => (hon hu).1, ?_,
    UInt16.le_trans hbeforeSize hsizes, UInt16.le_trans hafterSize hsizes, ?_⟩
  · intro j t harrives
    cases harrives with
    | @jump op' _ hop' hj =>
      cases hop.symm.trans hop'
      exact hext.delivered (hjumps j hj)
    | @next op' hop' hu =>
      cases hop.symm.trans hop'
      exact (hon hu).2
    | raisedBefore hg hi =>
      exact hext₁'.delivered (hcaught _ (List.mem_filter.2 ⟨hg, hi⟩)).2.1
    | raisedAfter hg hi =>
      exact hext₁'.delivered (hcaught _ (List.mem_filter.2 ⟨hg, hi⟩)).2.2
  · intro g hg hi
    exact UInt16.le_trans (hcaught g (List.mem_filter.2 ⟨hg, hi⟩)).1 hext₁'.maxStack

end Search

end Code

end ProxyForge
