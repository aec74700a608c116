import ProxyForge.Proofs.Frame.StackMap
/-!
# Soundness of the frames

The machine runs code on types and takes any way out of an instruction. `frames_sound`: whatever it
does, no instruction fails, control stays inside the code, the stack and the locals stay within
the limits of the method, and at each frame the machine knows at least what the frame says.
-/

namespace ProxyForge

namespace Code

open SlotType (top)
open VerifierInfo (localLimit ofProgram slotsOf)

variable {m : MethodHeader} {body : Body} {p : Program} {l : Layout} {b b' : PoolBuilder}
  {info : VerifierInfo} {e s t : TypeState}

/-! ## Limits -/

namespace TypeState

/-- Slots taken by the stack. -/
def stackSlots (s : TypeState) : Nat :=
  (s.stack.map SlotType.slots).sum

/-- Below a stack of known values lie stacks of as many slots. -/
theorem stackSlots_eq_of_le (h : s ≤ t) (htop : top ∉ t.stack) : s.stackSlots = t.stackSlots := by
  unfold stackSlots
  have hstack := h.stack
  generalize s.stack = a, t.stack = b at hstack htop ⊢
  induction hstack with
  | nil => rfl
  | cons hxy _ ih =>
    simp only [List.mem_cons, not_or] at htop
    rw [List.map_cons, List.map_cons, List.sum_cons, List.sum_cons, ih htop.2,
      SlotType.slots_eq_of_le hxy (Ne.symm htop.1)]

theorem toNat_stackSize (s : TypeState) : s.stackSize.toNat = s.stackSlots % 65536 := by
  have hfold : ∀ (stack : List SlotType) (n : UInt16),
      (stack.foldl (fun n t => n + UInt16.ofNat t.slots) n).toNat =
        (n.toNat + (stack.map SlotType.slots).sum) % 65536 := by
    intro stack
    induction stack with
    | nil =>
      intro n
      exact (Nat.mod_eq_of_lt n.toNat_lt).symm
    | cons t stack ih =>
      intro n
      rw [List.foldl_cons, ih, List.map_cons, List.sum_cons, UInt16.toNat_add, UInt16.toNat_ofNat']
      omega
  have h := hfold s.stack 0
  rwa [show (0 : UInt16).toNat = 0 from rfl, Nat.zero_add] at h

end TypeState

namespace VerifierInfo

theorem toNat_slotsOf {op : Op Nat} (h : op.reach ≤ 65535) : (slotsOf op).toNat = op.reach := by
  cases op with
  | load kind index | store kind index =>
    have hslots : kind.slots ≤ 2 := by cases kind <;> simp [Kind.slots]
    simp only [Op.reach] at h
    simp only [slotsOf, Op.reach, UInt16.toNat_add, UInt16.toNat_ofNat']
    omega
  | _ => rfl

/-- The limit is not below what it starts with, and not below what an instruction needs. -/
theorem le_foldl_slotsOf (ops : List (Op Nat)) (n : UInt16) :
    n.toNat ≤ (ops.foldl (fun n op => max n (slotsOf op)) n).toNat ∧
      ∀ op ∈ ops, (slotsOf op).toNat ≤ (ops.foldl (fun n op => max n (slotsOf op)) n).toNat := by
  induction ops generalizing n with
  | nil => exact ⟨le_refl _, nofun⟩
  | cons op ops ih =>
    obtain ⟨hle, hall⟩ := ih (max n (slotsOf op))
    rw [Search.toNat_max] at hle
    refine ⟨le_trans (le_max_left _ _) hle, fun op' hop' => ?_⟩
    rcases List.mem_cons.1 hop' with rfl | hop'
    · exact le_trans (le_max_right _ _) hle
    · exact hall op' hop'

/-- **Every local variable that an instruction reaches is below the limit.** -/
theorem reach_le_localLimit {ops : Array (Op Nat)} {i : Nat} {op : Op Nat}
    (hop : ops[i]? = some op) (h : op.reach ≤ 65535) (e : TypeState) :
    op.reach ≤ (localLimit ops e).toNat := by
  have hmem : op ∈ ops.toList := List.mem_of_getElem? (i := i) (by rwa [Array.getElem?_toList])
  rw [localLimit, ← toNat_slotsOf h, ← Array.foldl_toList]
  exact (le_foldl_slotsOf ops.toList _).2 op hmem

end VerifierInfo

/-! ## Soundness -/

/-- **The frames are sound.** However the code runs on types: every instruction that control comes
to exists and runs, the stack takes no more slots than the method says, no local variable beyond
its limit is touched, an instruction that needs a frame has one, and the machine is below it. -/
theorem frames_sound (hl : LaidOut m body p l) (h : ofProgram m p l.offsets b = .ok info b')
    (he : TypeState.entry m = .ok e) (hreach : ∀ op ∈ body.ops, op.reach ≤ 65535)
    (hstack : ∀ now, (p.context m l.offsets).Runs e now → now.state.stackSlots ≤ 65535) :
    ∃ table, frameTable b'.pool (p.context m l.offsets) info.frames = some table ∧
      ∀ now, (p.context m l.offsets).Runs e now → ∃ op after,
        p.ops[now.position]? = some op ∧
        now.state.step m (Layout.offsetAt l.offsets now.position) op = .ok after ∧
        now.state.stackSlots ≤ info.maxStack.toNat ∧
        op.reach ≤ info.maxLocals.toNat ∧
        (p.NeedsFrame now.position →
          ∃ t, (Layout.offsetAt l.offsets now.position, t) ∈ table) ∧
        ∀ t, (Layout.offsetAt l.offsets now.position, t) ∈ table → now.state ≤ t := by
  obtain ⟨e', s, hf⟩ := framed_of_ofProgram hl h
  cases he.symm.trans hf.entry
  obtain ⟨table, htable, -⟩ := hf.table
  have hinferred := hl.inferred_max he hf.size_pos hf.infer
  refine ⟨table, htable, fun now hrun => ?_⟩
  obtain ⟨hi, hpaired, hle⟩ := hinferred.typing.run hl.valid hinferred.staysInside hf.size_pos
    (TypeState.paired_entry he) hrun
  have hop : p.ops[now.position]? = some p.ops[now.position] := Array.getElem?_eq_getElem hi
  obtain ⟨after, _, hstep, -, -⟩ := hinferred.typing.exists_step hop hpaired hle
  obtain ⟨_, hsettled⟩ := hinferred.settled hop
  refine ⟨p.ops[now.position], after, hop, hstep, ?_, ?_, fun hneeds => ?_, fun t ht => ?_⟩
  · -- the stack of the machine has the slots of what was found, which do not overflow
    have hslots := TypeState.stackSlots_eq_of_le hle (hinferred.admits hi).paired.stack
    have hfits := hstack now hrun
    have hsize := UInt16.le_iff_toNat_le.1 hsettled.before_size
    rw [TypeState.toNat_stackSize, ← hslots, Nat.mod_eq_of_lt (by omega)] at hsize
    rwa [hf.maxStack]
  · rw [hf.maxLocals]
    exact VerifierInfo.reach_le_localLimit hop (hl.reachesBelow hreach now.position _ hop) e
  · exact hf.exists_row htable hi hneeds
  · obtain ⟨j, hj, -, hoffset, hagrees⟩ := hf.row htable ht
    obtain rfl := hl.ascends.inj hj hi hoffset
    exact le_trans hle hagrees.ge

/-- The method that never ends keeps one value on the stack at most. -/
theorem Spin.stackSlots_le {now : Context.Config}
    (h : (program.context header layout.offsets).Runs ⟨[], []⟩ now) :
    now.state.stackSlots ≤ 1 := by
  have hinferred := laidOut.inferred_max entry (by decide) infer
  obtain ⟨hi, -, hle⟩ := hinferred.typing.run laidOut.valid hinferred.staysInside (by decide)
    (TypeState.paired_entry entry) h
  rw [TypeState.stackSlots_eq_of_le hle (hinferred.admits hi).paired.stack]
  have hall : ∀ i < 3, (search.knownAt i).stackSlots ≤ 1 := by decide
  exact hall now.position hi

/-- The machine runs the method that never ends. -/
theorem frames_sound_spin :
    ∃ table, frameTable PoolBuilder.empty.pool
        (Spin.program.context Spin.header Spin.layout.offsets) Spin.info.frames = some table ∧
      ∀ now, (Spin.program.context Spin.header Spin.layout.offsets).Runs ⟨[], []⟩ now →
        now.state.stackSlots ≤ 1 ∧
        ∀ t, (Layout.offsetAt Spin.layout.offsets now.position, t) ∈ table → now.state ≤ t := by
  obtain ⟨table, htable, hall⟩ := frames_sound Spin.laidOut Spin.framed Spin.entry (by decide)
    fun _ hrun => le_trans (Spin.stackSlots_le hrun) (by decide)
  refine ⟨table, htable, fun now hrun => ?_⟩
  obtain ⟨_, _, -, -, hstack, -, -, hbelow⟩ := hall now hrun
  exact ⟨hstack, hbelow⟩

end Code

end ProxyForge
