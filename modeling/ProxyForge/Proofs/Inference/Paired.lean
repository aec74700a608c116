import ProxyForge.Proofs.Inference.Effect
/-!
# Wide values keep their two slots

A state is `Paired` if each wide local variable is followed by a slot of which nothing is known,
and no value on the stack is unknown. Methods start in such a state, every instruction keeps it
(`Paired.step`), and so does merging (`Paired.merge`). Beside it stand the bounds that every
instruction keeps: on the number of local variables and on the height of the stack.
-/

namespace ProxyForge

namespace Code

namespace TypeState

open SlotType (top)

variable {s t u : TypeState} {locals : List SlotType} {kind : Kind} {v : SlotType}
  {i j offset : Nat} {L : Type} {op : Op L}

/-- **Wide values keep their two slots.** -/
structure Paired (s : TypeState) : Prop where
  locals : ∀ i, isWideAt s.locals i → s.locals[i + 1]? = some top
  stack : top ∉ s.stack

/-! ## Storing a local -/

@[simp] theorem length_storeLocal :
    (storeLocal locals i kind v).length = max locals.length (i + kind.slots) := by
  unfold storeLocal
  simp only [List.length_set]
  split <;> split <;> simp

theorem slots_pos (kind : Kind) : 0 < kind.slots := by
  cases kind <;> simp [Kind.slots]

/-- **The locals after a store**: the value, the second slot that it takes or that it cuts off,
the first half of what it cuts in two, and all else as before. -/
theorem slotAt_storeLocal : slotAt (storeLocal locals i kind v) j =
    if i = j then v
    else if i + 1 = j ∧ (kind.slots = 2 ∨ (slotAt locals i).isWide) then top
    else if j + 1 = i ∧ (slotAt locals j).isWide then top
    else slotAt locals j := by
  have hpos := slots_pos kind
  -- the halves in front of the slot
  have hfront : ∀ k, slotAt (if 0 < i ∧ isWideAt (pad (i + kind.slots) locals) (i - 1) then
      (pad (i + kind.slots) locals).set (i - 1) top else pad (i + kind.slots) locals) k =
        if k + 1 = i ∧ (slotAt locals k).isWide then top else slotAt locals k := by
    intro k
    simp only [isWideAt_eq, slotAt_pad]
    by_cases hi : 0 < i ∧ (slotAt locals (i - 1)).isWide
    · rw [if_pos hi, slotAt_set_top, slotAt_pad]
      by_cases hk : i - 1 = k
      · rw [if_pos hk, if_pos ⟨by omega, hk ▸ hi.2⟩]
      · rw [if_neg hk, if_neg (by omega)]
    · rw [if_neg hi, slotAt_pad, if_neg]
      rintro ⟨hk, hw⟩
      exact hi ⟨by omega, by rwa [show i - 1 = k by omega]⟩
  have hwide : isWideAt (if 0 < i ∧ isWideAt (pad (i + kind.slots) locals) (i - 1) then
      (pad (i + kind.slots) locals).set (i - 1) top else pad (i + kind.slots) locals) i =
        (slotAt locals i).isWide := by
    rw [isWideAt_eq, hfront, if_neg (by omega)]
  -- the slot itself, the one behind it, and all others
  unfold storeLocal
  simp only [hwide]
  rw [slotAt_set (by split <;> split <;> simp <;> omega)]
  by_cases hij : i = j
  · rw [if_pos hij, if_pos hij]
  · rw [if_neg hij, if_neg hij]
    by_cases hcut : kind.slots = 2 ∨ (slotAt locals i).isWide
    · rw [if_pos hcut, slotAt_set_top, hfront]
      simp only [hcut, and_true]
    · rw [if_neg hcut, hfront]
      simp only [hcut, and_false, if_false]

/-! ## Pairs -/

/-- A slot of which nothing is known, and which is there. -/
theorem getElem?_eq_top : locals[i]? = some top ↔ i < locals.length ∧ slotAt locals i = top := by
  constructor
  · intro h
    exact ⟨(List.getElem?_eq_some_iff.1 h).1, slotAt_of_getElem? h⟩
  · rintro ⟨hi, h⟩
    rw [slotAt_of_getElem? (List.getElem?_eq_getElem hi)] at h
    rw [List.getElem?_eq_getElem hi, h]

theorem Paired.slotAt_succ (hs : s.Paired) (h : (slotAt s.locals i).isWide) :
    slotAt s.locals (i + 1) = top :=
  (getElem?_eq_top.1 (hs.locals i (by rwa [isWideAt_eq]))).2

/-- Only kinds of two slots have wide values. -/
theorem slots_of_isWide (hfits : v.fits kind) (hv : v.isWide) : kind.slots = 2 := by
  cases v <;> cases kind <;> simp_all [SlotType.fits, SlotType.isWide, SlotType.isReference,
    Kind.slots]

theorem paired_storeLocal (hp : ∀ i, isWideAt locals i → locals[i + 1]? = some top)
    (hfits : v.fits kind) (i : Nat) (j : Nat)
    (h : isWideAt (storeLocal locals i kind v) j) :
    (storeLocal locals i kind v)[j + 1]? = some top := by
  rw [isWideAt_eq] at h
  rw [getElem?_eq_top, length_storeLocal, slotAt_storeLocal]
  rw [slotAt_storeLocal] at h
  by_cases hij : i = j
  · -- the stored value itself
    rw [if_pos hij] at h
    have hslots := slots_of_isWide hfits h
    rw [if_neg (by omega), if_pos ⟨by omega, .inl hslots⟩]
    exact ⟨by omega, rfl⟩
  · rw [if_neg hij] at h
    split at h
    · simp [SlotType.isWide] at h
    · split at h
      · simp [SlotType.isWide] at h
      · rename_i hcut hfront
        -- a wide value that is left: the store began neither in it nor at its second slot
        have hj : j + 1 ≠ i := fun heq => hfront ⟨heq, h⟩
        obtain ⟨hlen, htop⟩ := getElem?_eq_top.1 (hp j (by rwa [isWideAt_eq]))
        rw [if_neg (Ne.symm hj), if_neg (fun h => hij (by omega)), if_neg, htop]
        · exact ⟨by omega, rfl⟩
        · rw [htop]
          simp [SlotType.isWide]

theorem replace_locals_getElem? (old new : SlotType) (s : TypeState) (i : Nat) :
    (s.replace old new).locals[i]? = s.locals[i]?.map fun t => if t = old then new else t := by
  simp [replace]

theorem slotAt_replace {old : SlotType} (hold : old ≠ top) (new : SlotType) (s : TypeState)
    (i : Nat) : slotAt (s.replace old new).locals i =
      if slotAt s.locals i = old then new else slotAt s.locals i := by
  unfold slotAt
  rw [List.getD_eq_getElem?_getD, List.getD_eq_getElem?_getD, replace_locals_getElem?]
  rcases s.locals[i]? with - | t
  · simp [hold.symm]
  · simp

/-- **An effect keeps pairs.** -/
theorem Paired.effect (hs : s.Paired) (h : Effect offset op s t) : t.Paired := by
  have hrest : ∀ (dropped : List SlotType) {rest : List SlotType},
      s.stack = dropped ++ rest → top ∉ rest :=
    fun dropped _ heq hmem => hs.stack (heq ▸ List.mem_append_right dropped hmem)
  cases h with
  | stack dropped rest pushed heq hlen hpushed =>
    refine ⟨hs.locals, ?_⟩
    simp only [List.mem_append, not_or]
    exact ⟨fun htop => (hpushed top htop).1 rfl, hrest dropped heq⟩
  | @store rest v kind index hop heq hv =>
    exact ⟨paired_storeLocal hs.locals hv _, hrest [v] heq⟩
  | @complete dropped rest pushed v name heq hv hlen hpushed =>
    have hvtop := SlotType.ne_top_of_fresh hv
    refine ⟨fun i hi => ?_, ?_⟩
    · rw [isWideAt_eq, slotAt_replace hvtop] at hi
      rw [replace_locals_getElem?]
      split at hi
      · simp [SlotType.isWide] at hi
      · -- completing an object touches no wide value and no unknown slot
        rw [hs.locals i (by rwa [isWideAt_eq])]
        simp [hvtop.symm]
    · simp only [List.mem_append, not_or, replace, List.mem_map, not_exists, not_and]
      refine ⟨fun htop => (hpushed top htop).1 rfl, fun x hx => ?_⟩
      split
      · exact SlotType.noConfusion
      · rintro rfl
        exact hrest (dropped ++ [v]) (by simpa using heq) hx

/-- **An instruction keeps pairs.** -/
theorem Paired.step {m : MethodHeader} (hs : s.Paired)
    (h : s.step m offset op = .ok t) : t.Paired :=
  hs.effect (effect_of_step hs.stack h)

/-- **Merging keeps pairs**: what is wide in the result is wide on both sides. -/
theorem Paired.merge {changed : Bool} (hs : s.Paired) (ht : t.Paired)
    (h : s.merge offset t = .ok (u, changed)) : u.Paired := by
  have hle := le_of_merge_left h
  have hle' := le_of_merge_right h
  obtain ⟨-, htop, hu, -⟩ := merge_eq_ok_iff.1 h
  refine ⟨fun i hi => ?_, htop⟩
  rw [isWideAt_eq] at hi
  -- only the wide type itself merges to a wide type
  have hl := SlotType.eq_of_isWide_le (hle.locals i) hi
  have hr := SlotType.eq_of_isWide_le (hle'.locals i) hi
  have hl' := hs.locals i (by rw [isWideAt_eq, hl]; exact hi)
  have hr' := ht.locals i (by rw [isWideAt_eq, hr]; exact hi)
  rw [getElem?_eq_top] at hl' hr' ⊢
  rw [hu]
  refine ⟨?_, ?_⟩
  · rw [length_mergeLocals]
    omega
  · rw [slotAt_mergeLocals, hl'.2, hr'.2, sup_idem]

/-- A handler starts with the locals of the instruction that failed and one object. -/
theorem Paired.handler (hs : s.Paired) (hv : v ≠ top) : (⟨s.locals, [v]⟩ : TypeState).Paired :=
  ⟨hs.locals, by simpa using hv.symm⟩

/-! ## Bounds -/

/-- No instruction reaches a local variable beyond this. -/
theorem reach_le (op : Op L) : op.reach ≤ 65537 := by
  have hslots : ∀ kind : Kind, kind.slots ≤ 2 := fun kind => by cases kind <;> simp [Kind.slots]
  cases op with
  | load kind index | store kind index =>
    have := hslots kind
    have := index.toNat_lt
    simp only [Op.reach]
    omega
  | _ => exact Nat.zero_le _

theorem Effect.length_locals_le (h : Effect offset op s t) :
    t.locals.length ≤ max s.locals.length op.reach := by
  cases h with
  | stack => exact le_max_left _ _
  | store hop heq hv =>
    rw [length_storeLocal, hop]
    exact le_refl _
  | complete =>
    simp only [replace, List.length_map]
    exact le_max_left _ _

theorem Effect.length_stack_le (h : Effect offset op s t) :
    t.stack.length ≤ s.stack.length + 1 := by
  cases h with
  | stack dropped rest pushed heq hlen hpushed =>
    rw [heq]
    simp only [List.length_append]
    omega
  | store hop heq hv =>
    rw [heq]
    simp only [List.length_cons]
    omega
  | complete dropped rest pushed name heq hv hlen hpushed =>
    rw [heq]
    simp only [replace, List.length_append, List.length_map, List.length_cons]
    omega

end TypeState

end Code

end ProxyForge
