import ProxyForge.Proofs.Inference.Soundness
/-!
# Limits of the stack and of the locals

The limits of a method are sums and maxima in sixteen bits, and nothing says that a sum fits.
`limits_cover_iff`: a limit covers a local variable, the parameters or a stack exactly if the
number of slots below its end has sixteen bits. Where a sum wraps, the limit is too small.
-/

namespace ProxyForge

namespace Code

open VerifierInfo (localLimit ofProgram slotsOf)

variable {m : MethodHeader} {body : Body} {p : Program} {l : Layout} {b b' : PoolBuilder}
  {info : VerifierInfo} {e t before after : TypeState} {c : Context} {bound : Nat} {s : Search}
  {i : Nat} {op : Op Nat}

/-! ## Local variables -/

namespace VerifierInfo

/-- **The slots at the start are below the limit**, if there are not too many. -/
theorem length_le_localLimit (ops : Array (Op Nat)) (h : e.locals.length ≤ 65535) :
    e.locals.length ≤ (localLimit ops e).toNat := by
  have hlength : (Bytes.length16 e.locals).toNat = e.locals.length := by
    rw [Bytes.length16, UInt16.toNat_ofNat']
    exact Nat.mod_eq_of_lt (Nat.lt_succ_of_le h)
  rw [localLimit, ← Array.foldl_toList]
  exact hlength.ge.trans (le_foldl_slotsOf ops.toList _).1

end VerifierInfo

/-! ## The stack -/

namespace TypeState

theorem stackSlots_le (t : TypeState) : t.stackSlots ≤ 2 * t.stack.length := by
  have hslots : ∀ n ∈ t.stack.map SlotType.slots, n ≤ 2 := by
    intro n hn
    obtain ⟨v, -, rfl⟩ := List.mem_map.1 hn
    unfold SlotType.slots
    split <;> decide
  have hsum : t.stackSlots ≤ (t.stack.map SlotType.slots).length * 2 :=
    List.sum_le_card_nsmul _ _ hslots
  rwa [List.length_map, Nat.mul_comm] at hsum

end TypeState

namespace Search

/-- **What an instruction finds on the stack and leaves there**, in a search that has ended: it is
counted by the limit but for what does not fit into sixteen bits, and it is no more than one value
for each instruction. -/
theorem Inferred.stack_spec (h : Inferred c bound e s) (hop : c.ops[i]? = some op)
    (hbefore : s.stateAt i = some before)
    (hstep : before.step c.shape (c.offsetAt i) op = .ok after) :
    ∀ t ∈ [before, after],
      t.stackSlots % 65536 ≤ s.maxStack.toNat ∧ t.stack.length ≤ c.ops.size := by
  obtain ⟨after', hsettled⟩ := h.settled hop
  have hheight := h.height_lt (Array.getElem?_eq_some_iff.1 hop).1
  have hpaired := (h.admits (Array.getElem?_eq_some_iff.1 hop).1).paired
  rw [knownAt_of_stateAt hbefore] at hsettled hheight hpaired
  cases hstep.symm.trans hsettled.step
  have hafter := (TypeState.effect_of_step hpaired.stack hstep).length_stack_le
  simp only [List.forall_mem_cons, ← TypeState.toNat_stackSize]
  exact ⟨⟨UInt16.le_iff_toNat_le.1 hsettled.before_size, hheight.le⟩,
    ⟨UInt16.le_iff_toNat_le.1 hsettled.after_size, by omega⟩, nofun⟩

end Search

/-! ## Both limits -/

/-- An instruction of the body is one of the program, up to its labels. -/
theorem LaidOut.exists_op (hl : LaidOut m body p l) {op : Op Nat} (hop : op ∈ body.ops) :
    ∃ (i : Nat) (op' : Op Nat), p.ops[i]? = some op' ∧ op'.reach = op.reach := by
  obtain ⟨hsize, hall⟩ := Body.resolve_ops hl.resolve
  obtain ⟨i, hi⟩ := List.mem_iff_getElem?.1 hop
  have hlt : i < p.ops.size := hsize ▸ (List.getElem?_eq_some_iff.1 hi).1
  have hop' : p.ops[i]? = some p.ops[i] := Array.getElem?_eq_getElem hlt
  obtain ⟨op₀, hop₀, hresolve⟩ := hall i _ hop'
  cases hi.symm.trans hop₀
  exact ⟨i, _, hop', Op.reach_resolve hresolve⟩

/-- **What the limits of a method cover.** The limit of the locals covers the slots at the start,
and what an instruction loads or stores, exactly if their end has sixteen bits; the limit of the
stack covers what an instruction finds on the stack, and what it leaves there, exactly if the
number of slots has sixteen bits. It always has if there are not too many instructions. -/
theorem limits_cover_iff (hl : LaidOut m body p l) (h : ofProgram m p l.offsets b = .ok info b') :
    ∃ e s, TypeState.entry m = .ok e ∧ Search.infer (p.context m l.offsets) e = .ok s ∧
      (e.locals.length ≤ info.maxLocals.toNat ↔ e.locals.length ≤ 65535) ∧
      (∀ op ∈ body.ops, op.reach ≤ info.maxLocals.toNat ↔ op.reach ≤ 65535) ∧
      ∀ i op before after, p.ops[i]? = some op → s.stateAt i = some before →
        before.step m (Layout.offsetAt l.offsets i) op = .ok after → ∀ t ∈ [before, after],
          (t.stackSlots ≤ info.maxStack.toNat ↔ t.stackSlots ≤ 65535) ∧
          (p.ops.size ≤ 32767 → t.stackSlots ≤ info.maxStack.toNat) := by
  obtain ⟨e, s, hf⟩ := framed_of_ofProgram hl h
  have hinferred := hl.inferred_max hf.entry hf.size_pos hf.infer
  -- no limit has more than sixteen bits
  have hlocals := Nat.le_of_lt_succ info.maxLocals.toNat_lt
  have hstack := Nat.le_of_lt_succ info.maxStack.toNat_lt
  refine ⟨e, s, hf.entry, hf.infer, ⟨fun hle => le_trans hle hlocals, fun hle => ?_⟩,
    fun op hop => ⟨fun hle => le_trans hle hlocals, fun hle => ?_⟩, ?_⟩
  · rw [hf.maxLocals]
    exact VerifierInfo.length_le_localLimit p.ops hle
  · obtain ⟨i, op', hop', hreach⟩ := hl.exists_op hop
    rw [hf.maxLocals, ← hreach]
    exact VerifierInfo.reach_le_localLimit hop' (hreach ▸ hle) e
  · intro i op before after hop hbefore hstep t ht
    obtain ⟨hcounted, hheight⟩ := hinferred.stack_spec hop hbefore hstep t ht
    rw [← hf.maxStack] at hcounted
    -- what fits is counted in full
    have hcovers : t.stackSlots ≤ 65535 → t.stackSlots ≤ info.maxStack.toNat := fun hle => by
      rwa [Nat.mod_eq_of_lt (Nat.lt_succ_of_le hle)] at hcounted
    refine ⟨⟨fun hle => le_trans hle hstack, hcovers⟩, fun hsize => hcovers ?_⟩
    have hslots := t.stackSlots_le
    change t.stack.length ≤ p.ops.size at hheight
    omega

/-! ### A store to the last local variable -/

namespace LastLocal

/-- A static method without parameters. -/
def header : MethodHeader := ⟨"LastLocal", "last", "()V", true⟩

/-- It stores a number into the last local variable that an instruction can name. -/
def code : Body := ⟨[.op (.int 0), .op (.store .int 65535), .op (.ret none)], []⟩

def program : Program := ⟨#[.int 0, .store .int 65535, .ret none], []⟩

def layout : Layout := ⟨[0x03, 0xc4, 0x36, 0xff, 0xff, 0xb1], #[0, 1, 5, 6], [0, 0, 0]⟩

/-- One slot more than sixteen bits can count is none. -/
def limits : VerifierInfo := ⟨1, 0, []⟩

theorem laidOut : LaidOut header code program layout where
  program := by
    simp [Body.program, Body.resolve, code, Body.ops, Body.opsOf, Body.positions,
      Body.positionsFrom, Op.resolve, Except.mapError, program]
    rfl
  layout := ⟨.empty, .empty, rfl⟩

theorem entry : TypeState.entry header = .ok ⟨[], []⟩ := Spin.entry

def search : Search where
  states := #[some ⟨[], []⟩, some ⟨[], [.int]⟩,
    some ⟨TypeState.storeLocal [] 65535 .int .int, []⟩]
  pending := []
  queued := #[false, false, false]
  maxStack := 1

theorem infer : Search.infer (program.context header layout.offsets) ⟨[], []⟩ = .ok search := by
  have hrun : ∀ fuel, (Search.start 3 ⟨[], []⟩).run (program.context header layout.offsets)
      (fuel + 4) = .ok search := fun _ => rfl
  have hfuel : Search.fuelFor 3 0 = 786508 + 4 := rfl
  have hnone : search.states.findIdx? Option.isNone = none := by simp [search]
  refine Outcome.bind_eq_ok.2
    ⟨search, (congrArg (Search.run _ · _) hfuel).trans (hrun _), ?_⟩
  rw [hnone]
  rfl

theorem framed :
    VerifierInfo.ofProgram header program layout.offsets .empty = .ok limits .empty := by
  rw [VerifierInfo.ofProgram_eq entry (by decide) infer]
  rfl

end LastLocal

/-- The limit of the method does not cover the local variable that it stores to. -/
theorem limits_cover_lastLocal : LastLocal.limits.maxLocals = 0 ∧
    ¬ (Op.store .int 65535 : Op Nat).reach ≤ LastLocal.limits.maxLocals.toNat := by
  obtain ⟨_, _, -, -, -, hreach, -⟩ := limits_cover_iff LastLocal.laidOut LastLocal.framed
  exact ⟨rfl, (hreach (.store .int 65535) (by decide)).not.2 (by decide)⟩

end Code

end ProxyForge
