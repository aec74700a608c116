import ProxyForge.Proofs.Inference.Origin
/-!
# The start of a method

At its start a method has its receiver and its parameters in the locals, each wide one in two
slots, and nothing on the stack (`TypeState.entry_ok`). Such a state is paired and holds no object
that an instruction made.
-/

namespace ProxyForge

namespace Code

open SlotType (top)
open TypeState (isWideAt slotAt)

namespace SlotType

variable {t : SlotType} {slots values : List SlotType}

/-! ## Values and their slots -/

/-- Slots of values, one behind the other. -/
def spread (values : List SlotType) : List SlotType :=
  values.flatMap expand

@[simp] theorem spread_nil : spread [] = [] := rfl

theorem spread_cons (t : SlotType) (values : List SlotType) :
    spread (t :: values) = t.expand ++ spread values := rfl

theorem spread_append (values values' : List SlotType) :
    spread (values ++ values') = spread values ++ spread values' :=
  List.flatMap_append

theorem spread_replicate_top (n : Nat) :
    spread (List.replicate n top) = List.replicate n top := by
  induction n with
  | zero => rfl
  | succ n ih =>
    rw [List.replicate_succ, spread_cons, ih]
    rfl

/-- In the slots of values, each wide one is followed by a slot of which nothing is known. -/
theorem paired_spread (values : List SlotType) (i : Nat) (h : isWideAt (spread values) i) :
    (spread values)[i + 1]? = some top := by
  induction values generalizing i with
  | nil => simp [isWideAt] at h
  | cons t values ih =>
    rw [spread_cons] at h ⊢
    by_cases hwide : t.isWide
    · rw [expand, if_pos hwide] at h ⊢
      cases i with
      | zero => rfl
      | succ i =>
        cases i with
        | zero => simp [isWideAt, isWide] at h
        | succ i => exact ih i h
    · rw [expand, if_neg hwide] at h ⊢
      cases i with
      | zero => exact absurd h hwide
      | succ i => exact ih i h

/-- Values are told from their slots. -/
theorem spread_injective {values' : List SlotType} (h : spread values = spread values') :
    values = values' := by
  have hne : ∀ (t : SlotType) (values : List SlotType), [] ≠ spread (t :: values) := by
    intro t values h
    rw [spread_cons, expand] at h
    split at h <;> cases h
  induction values generalizing values' with
  | nil =>
    cases values' with
    | nil => rfl
    | cons t values' => exact absurd h (hne t values')
  | cons t values ih =>
    -- the first slot is the first value, so the values are read off from the front
    cases values' with
    | nil => exact absurd h.symm (hne t values)
    | cons t' values' =>
      rw [spread_cons, spread_cons] at h
      have hhead : t = t' := by
        unfold expand at h
        split at h <;> split at h <;> exact (List.cons.inj h).1
      subst hhead
      rw [ih (List.append_cancel_left h)]

theorem slotAt_append_tops (n i : Nat) :
    slotAt (slots ++ List.replicate n top) i = slotAt slots i := by
  have h : slotAt (TypeState.pad (slots.length + n) slots) i = slotAt slots i :=
    TypeState.slotAt_pad (slots.length + n) i
  rwa [TypeState.pad, Nat.add_sub_cancel_left] at h

end SlotType

namespace TypeState

variable {m : MethodHeader} {e : TypeState}

/-! ## Entry -/

/-- The receiver and the parameters of a method, one entry a value. -/
def entryValues (m : MethodHeader) : List SlotType :=
  match JvmType.ofMethodDescriptor m.descriptor with
  | .error _ => receiver m
  | .ok (params, _) => receiver m ++ params.filterMap SlotType.ofType

theorem spread_receiver (m : MethodHeader) : SlotType.spread (receiver m) = receiver m := by
  unfold receiver
  split
  · rfl
  · split <;> rfl

theorem spread_params (params : List JvmType) :
    SlotType.spread (params.filterMap SlotType.ofType) = params.flatMap parameterSlots := by
  induction params with
  | nil => rfl
  | cons type params ih =>
    rw [List.filterMap_cons, List.flatMap_cons, ← ih, parameterSlots]
    split
    · rename_i hnone
      rw [hnone]
      rfl
    · rename_i t hsome
      rw [hsome]
      rfl

/-- **A method starts** with the slots of its receiver and its parameters, if its descriptor is
one. -/
theorem entry_ok (h : entry m = .ok e) : e = ⟨SlotType.spread (entryValues m), []⟩ := by
  unfold entry at h
  unfold entryValues
  cases hparams : JvmType.ofMethodDescriptor m.descriptor with
  | error _ =>
    rw [hparams] at h
    cases h
  | ok method =>
    rw [hparams] at h
    cases h
    dsimp only
    rw [SlotType.spread_append, spread_receiver, spread_params]

/-- What is known at the start is known of values, none of which an instruction made. -/
theorem value_of_mem_entryValues {t : SlotType} (h : t ∈ entryValues m) :
    t ≠ top ∧ ∀ offset name, t ≠ .uninitialized offset name := by
  have hreceiver : t ∈ receiver m → t ≠ top ∧ ∀ offset name, t ≠ .uninitialized offset name := by
    intro h
    unfold receiver at h
    split at h
    · cases h
    · split at h <;>
        exact List.mem_singleton.1 h ▸ ⟨SlotType.noConfusion, fun _ _ => SlotType.noConfusion⟩
  unfold entryValues at h
  split at h
  · exact hreceiver h
  · rcases List.mem_append.1 h with h | h
    · exact hreceiver h
    · obtain ⟨type, -, htype⟩ := List.mem_filterMap.1 h
      obtain ⟨htop, hfresh⟩ := value_ofType htype
      refine ⟨htop, fun offset name heq => ?_⟩
      rw [heq] at hfresh
      cases hfresh

theorem paired_entry (h : entry m = .ok e) : e.Paired := by
  rw [entry_ok h]
  exact ⟨SlotType.paired_spread _, List.not_mem_nil⟩

theorem made_entry (c : Context) (h : entry m = .ok e) : e.Made c := by
  rw [entry_ok h]
  intro offset name hholds
  rcases hholds with hmem | hmem
  · obtain ⟨t, ht, hmem⟩ := List.mem_flatMap.1 hmem
    obtain ⟨htop, hvalue⟩ := value_of_mem_entryValues ht
    -- a slot is a value, or the second one of a wide value
    unfold SlotType.expand at hmem
    split at hmem
    · simp only [List.mem_cons, List.not_mem_nil, or_false] at hmem
      rcases hmem with hmem | hmem
      · exact absurd hmem.symm (hvalue offset name)
      · cases hmem
    · exact absurd (List.mem_singleton.1 hmem).symm (hvalue offset name)
  · exact absurd hmem List.not_mem_nil

end TypeState

end Code

end ProxyForge
