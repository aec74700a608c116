import ProxyForge.Proofs.Run.Symbolic
/-!
# All instructions read back

`Instruction.symbolic` reads what straight code without stores is made of. `Instruction.op` reads
the other instructions of symbolic code as well: loads and stores of every kind, fields, arrays,
monitors, returns and jumps. What is written as a symbolic instruction is read as that one, with
offsets for its labels (`Instruction.exists_op`).
-/

namespace ProxyForge

open Code (Op Kind CallKind JumpKind)

-- a mnemonic is looked up deep in a literal table
set_option maxRecDepth 4000

/-- All kinds. -/
def Code.Kind.all : List Kind :=
  [int, long, float, double, reference]

namespace Instruction

/-! ## Reading -/

/-- Accesses to local variables, by mnemonic. -/
def accesses : List (String × (UInt16 → Op Nat)) :=
  Kind.all.flatMap fun k => [(k.letter ++ "load", .load k), (k.letter ++ "store", .store k)]

/-- Accesses to local variables whose index is part of the mnemonic. -/
def namedAccesses : List (String × Op Nat) :=
  accesses.flatMap fun (name, access) =>
    (List.range 4).map fun n => (name ++ "_" ++ toString n, access (UInt16.ofNat n))

/-- Further instructions that have no operand, by mnemonic. -/
def bareOps : List (String × Op Nat) :=
  [("aastore", .arrayStore), ("pop", .pop), ("return", .ret none),
    ("monitorenter", .monitorEnter), ("monitorexit", .monitorExit)] ++
  (Kind.all.map fun k => (k.letter ++ "return", Op.ret (some k))) ++ namedAccesses

/-- Jumps, by mnemonic. -/
def jumps : List (String × JumpKind) :=
  [JumpKind.always, .ifNull, .ifNonNull].map fun kind => (kind.mnemonic, kind)

/-- The push of a class. -/
def pushedClass (pool : Pool) (index : UInt16) : Option (Op Nat) :=
  (pool.className index).toOption.map .classOf

/-- An access to a field. -/
def accessed (pool : Pool) (access : Code.FieldRef → Op Nat) (index : UInt16) : Option (Op Nat) :=
  match pool.get index with
  | .ok (.fieldRef _ _) =>
    (pool.memberRef index).toOption.map fun f => access ⟨f.owner, f.name, f.descriptor⟩
  | _ => none

/-- A further instruction with a constant. -/
def ofFurtherConstant (pool : Pool) (name : String) (index : UInt16) : Option (Op Nat) :=
  if name = "ldc" ∨ name = "ldc_w" then pushedClass pool index
  else if name = "getstatic" then accessed pool .getStatic index
  else if name = "putstatic" then accessed pool .putStatic index
  else if name = "getfield" then accessed pool .getField index
  else if name = "putfield" then accessed pool .putField index
  else if name = "anewarray" then (pool.className index).toOption.map .newArray
  else none

/-- A symbolic instruction that `symbolic` does not read. -/
def further (pool : Pool) (i : Instruction) : Option (Op Nat) := do
  let name ← i.opcode.mnemonic
  match i.isWide, i.operand with
  | _, .local index => (accesses.lookup name).map (· index)
  | false, .none => bareOps.lookup name
  | false, .constant index => ofFurtherConstant pool name index
  | false, .interfaceCall index _ =>
    if name = "invokeinterface" then called pool .interface index else none
  | false, .branch target => (jumps.lookup name).map (.jump · target.toNat)
  | _, _ => none

/-- **The symbolic instruction that an instruction stands for**, with offsets for places. -/
def op (pool : Pool) (i : Instruction) : Option (Op Nat) :=
  match i.symbolic pool with
  | some op => some op
  | none => i.further pool

/-! ## Mnemonics with an index -/

/-- The local variable that is part of a mnemonic. -/
theorem le_three_of_named {opcode : Opcode} {name : String} {access : UInt16 → Op Nat} {n : Nat}
    (hname : (name, access) ∈ accesses)
    (h : opcode.mnemonic = some (name ++ "_" ++ toString n)) : n ≤ 3 := by
  have hmem := mem_of_mnemonic [name ++ "_" ++ toString 0, name ++ "_" ++ toString 1,
    name ++ "_" ++ toString 2, name ++ "_" ++ toString 3] (by
      have hnames : ∀ front ∈ accesses.map Prod.fst, ∀ found ∈ Opcode.mnemonics.toList,
          (front ++ "_").toList <+: found.toList → found ∈ [front ++ "_" ++ toString 0,
            front ++ "_" ++ toString 1, front ++ "_" ++ toString 2,
            front ++ "_" ++ toString 3] := by
        decide +kernel
      exact hnames _ (List.mem_map_of_mem hname)) h
  have hone : ∀ k : Nat, name ++ "_" ++ toString n = name ++ "_" ++ toString k → n = k :=
    fun k hk => Nat.repr_inj.1 ((String.append_right_inj _).1 hk)
  simp only [List.mem_cons, List.not_mem_nil, or_false] at hmem
  rcases hmem with hk | hk | hk | hk <;> · have := hone _ hk; omega

/-! ## What is read -/

variable {pool : Pool} {i : Instruction} {index : UInt16} {op : Op Nat} {name : String}

theorem op_of_symbolic (h : i.symbolic pool = some op) : i.op pool = some op := by
  rw [Instruction.op, h]

theorem op_bare (h : i.Is name .none) (hplain : plainOps.lookup name = none)
    (hbare : bareOps.lookup name = some op) : i.op pool = some op := by
  obtain ⟨hname, hwide, hoperand⟩ := h
  simp only [Instruction.op, symbolic, further, hname, hwide, hoperand, Option.bind_eq_bind,
    Option.bind_some, hplain, hbare]

theorem op_constant (h : i.Is name (.constant index)) (hfirst : ofConstant pool name index = none) :
    i.op pool = ofFurtherConstant pool name index := by
  obtain ⟨hname, hwide, hoperand⟩ := h
  simp only [Instruction.op, symbolic, further, hname, hwide, hoperand, Option.bind_eq_bind,
    Option.bind_some, hfirst]

/-- **An access to a local variable** is read from each of its forms. -/
theorem op_access (access : UInt16 → Op Nat) (hlookup : accesses.lookup name = some access)
    (hname : name ≠ "aload")
    (hplain : ∀ n ≤ 3, plainOps.lookup (name ++ "_" ++ toString n) = none)
    (hbare : ∀ n ≤ 3, bareOps.lookup (name ++ "_" ++ toString n) = some (access (UInt16.ofNat n)))
    (h : i.AccessesLocal name index) : i.op pool = some (access index) := by
  cases h with
  | named h =>
    have hmem : (name, access) ∈ accesses := by
      obtain ⟨front, back, heq, -⟩ := List.lookup_eq_some_iff.1 hlookup
      rw [heq]
      exact List.mem_append_right _ List.mem_cons_self
    obtain ⟨n, hn, rfl⟩ : ∃ n ≤ 3, index = UInt16.ofNat n :=
      ⟨_, le_three_of_named hmem h.1, UInt16.ofNat_toNat.symm⟩
    have hsmall : (UInt16.ofNat n).toNat = n := by
      rw [UInt16.toNat_ofNat']
      omega
    rw [hsmall] at h
    exact op_bare h (hplain n hn) (hbare n hn)
  | plain h =>
    obtain ⟨hfound, hwide, hoperand⟩ := h
    simp only [Instruction.op, symbolic, further, hfound, hoperand, Option.bind_eq_bind,
      Option.bind_some, if_neg hname, hlookup, Option.map_some]
  | wide hfound hwide hoperand =>
    simp only [Instruction.op, symbolic, further, hfound, hoperand, Option.bind_eq_bind,
      Option.bind_some, if_neg hname, hlookup, Option.map_some]

theorem op_load {kind : Kind} (h : i.AccessesLocal (kind.letter ++ "load") index) :
    i.op pool = some (.load kind index) := by
  cases kind with
  | reference => exact op_of_symbolic (symbolic_load h)
  | _ => exact op_access (.load _) rfl (by decide) (by decide) (by decide) h

theorem op_store {kind : Kind} (h : i.AccessesLocal (kind.letter ++ "store") index) :
    i.op pool = some (.store kind index) := by
  cases kind <;> exact op_access (.store _) rfl (by decide) (by decide) (by decide) h

theorem op_ret {kind : Kind} (h : i.Is (kind.letter ++ "return") .none) :
    i.op pool = some (.ret (some kind)) := by
  cases kind with
  | reference => exact op_of_symbolic (symbolic_plain h (by decide))
  | _ => exact op_bare h (by decide) (by decide)

/-- **The field of an access** is found in the pool. -/
theorem accessed_eq {access : Code.FieldRef → Op Nat} {f : Code.FieldRef}
    (h : pool.HasField index f) : accessed pool access index = some (access f) := by
  obtain ⟨owner, member, hget, hmember⟩ := h
  have href : pool.memberRef index = .ok ⟨f.owner, f.name, f.descriptor, false⟩ := by
    unfold Pool.memberRef
    rw [hget]
    exact hmember
  unfold accessed
  rw [href, hget]
  rfl

/-- A class is not read as another constant. -/
theorem pushed_eq_none (h : pool.className index = .ok name) : pushed pool index = none := by
  obtain ⟨c, hget, hrest⟩ := Outcome.bind_eq_ok.1 h
  unfold pushed
  rw [hget]
  cases c <;> first | rfl | cases hrest

theorem op_classOf (h : i.LoadsConstant index) (hname : pool.className index = .ok name) :
    i.op pool = some (.classOf name) := by
  have hread : pushedClass pool index = some (.classOf name) := by
    rw [pushedClass, className_eq hname]
    rfl
  rcases h with h | h
  · rw [op_constant h (by rw [ofConstant, if_pos (.inl rfl), pushed_eq_none hname]),
      ofFurtherConstant, if_pos (.inl rfl), hread]
  · rw [op_constant h (by rw [ofConstant, if_pos (.inr rfl), pushed_eq_none hname]),
      ofFurtherConstant, if_pos (.inr rfl), hread]

end Instruction

/-! ## Labels -/

namespace Code.Op

/-- **An instruction with offsets for labels.** The cases of a switch are put in order. -/
inductive Placed (place : Nat → Option Nat) : Op Nat → Op Nat → Prop
  | same {op : Op Nat} (h : op.targets = []) : Placed place op op
  | jump {kind : JumpKind} {target offset : Nat} (h : place target = some offset) :
    Placed place (.jump kind target) (.jump kind offset)
  | lookupSwitch {fallback offset : Nat} {cases placed : List (Int32 × Nat)}
    (hfallback : place fallback = some offset) (hsorted : placed.Pairwise fun a b => a.1 < b.1)
    (hcases : (placed.map fun (key, target) => (key, some target)).Perm
      (cases.map fun (key, target) => (key, place target))) :
    Placed place (.lookupSwitch fallback cases) (.lookupSwitch offset placed)

/-- Instructions keep the offsets of their labels if more labels get one. -/
theorem Placed.imp {place place' : Nat → Option Nat} {op placed : Op Nat}
    (hplace : ∀ label offset, place label = some offset → place' label = some offset)
    (h : op.Placed place placed) : op.Placed place' placed := by
  cases h with
  | same h => exact .same h
  | jump h => exact .jump (hplace _ _ h)
  | @lookupSwitch _ _ cases placed hfallback hsorted hcases =>
    refine .lookupSwitch (hplace _ _ hfallback) hsorted ?_
    -- each case has an offset, since the cases of the placed switch have
    have hsame : (cases.map fun (key, target) => (key, place' target)) =
        cases.map fun (key, target) => (key, place target) := by
      refine List.map_congr_left fun ⟨key, target⟩ hmem => ?_
      obtain ⟨⟨key', offset⟩, -, heq⟩ := List.mem_map.1
        (hcases.mem_iff.2
          (List.mem_map_of_mem (f := fun (key, target) => (key, place target)) hmem))
      obtain ⟨-, hoffset⟩ := Prod.mk.inj heq
      exact Prod.ext rfl ((hplace _ _ hoffset.symm).trans hoffset)
    rw [hsame]
    exact hcases

end Code.Op

namespace Instruction

variable {pool : Pool} {i : Instruction} {place : Nat → Option Nat} {op : Op Nat}

/-- **What is written as a symbolic instruction is read as that one**, with offsets for labels. -/
theorem exists_op (h : op.WrittenAs pool place i) :
    ∃ placed, i.op pool = some placed ∧ op.Placed place placed := by
  -- what the linear reader knows comes first
  have hlinear : op.isLinear → ∃ placed, i.op pool = some placed ∧ op.Placed place placed :=
    fun hop =>
    ⟨op, op_of_symbolic (symbolic_eq hop h), .same (by cases op <;> first | rfl | cases hop)⟩
  cases op with
  | null | int _ | string _ | arrayLoad | dup | new _ | cast _ | throw => exact hlinear rfl
  | classOf name =>
    obtain ⟨index, hload, hname⟩ := h
    exact ⟨_, op_classOf hload hname, .same rfl⟩
  | load kind index => exact ⟨_, op_load h, .same rfl⟩
  | store kind index => exact ⟨_, op_store h, .same rfl⟩
  | arrayStore | pop | monitorEnter | monitorExit =>
    exact ⟨_, op_bare h (by decide) (by decide), .same rfl⟩
  | ret kind =>
    cases kind with
    | none => exact ⟨_, op_bare h (by decide) (by decide), .same rfl⟩
    | some kind => exact ⟨_, op_ret h, .same rfl⟩
  | getStatic f | putStatic f | getField f | putField f =>
    obtain ⟨index, his, hf⟩ := h
    refine ⟨_, ?_, .same rfl⟩
    rw [op_constant his (by simp [ofConstant])]
    simp [ofFurtherConstant, accessed_eq hf]
  | newArray name =>
    obtain ⟨index, his, hname⟩ := h
    refine ⟨_, ?_, .same rfl⟩
    rw [op_constant his (by simp [ofConstant])]
    simp [ofFurtherConstant, className_eq hname]
  | invoke kind m =>
    cases kind with
    | interface =>
      obtain ⟨index, count, ⟨hname, hwide, hoperand⟩, hm, -⟩ := h
      refine ⟨_, ?_, .same rfl⟩
      simp only [Instruction.op, symbolic, further, hname, hwide, hoperand, Option.bind_eq_bind,
        Option.bind_some, CallKind.mnemonic, if_true, called_eq hm]
    | _ => exact hlinear rfl
  | jump kind target =>
    obtain ⟨offset, ⟨hname, hwide, hoperand⟩, hplace⟩ := h
    refine ⟨_, ?_, .jump hplace⟩
    have hlookup : jumps.lookup kind.mnemonic = some kind := by cases kind <;> decide
    simp only [Instruction.op, symbolic, further, hname, hwide, hoperand, Option.bind_eq_bind,
      Option.bind_some, hlookup, Option.map_some]
  | lookupSwitch fallback cases =>
    obtain ⟨offset, placed, hread, hfallback, hsorted, hperm⟩ := symbolic_lookupSwitch h
    exact ⟨_, op_of_symbolic hread, .lookupSwitch hfallback hsorted hperm⟩

end Instruction

end ProxyForge
