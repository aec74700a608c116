import Std.Data.String.ToInt
import ProxyForge.Proofs.Layout.Meaning
/-!
# Instructions read back

`Instruction.symbolic` gives the symbolic instruction that one of decoded code stands for, with
offsets for places. It reads what straight code without stores is made of, and switches. What is
written as such an instruction is read as that (`Instruction.symbolic_eq`).
-/

namespace ProxyForge

open Code (Op CallKind)

-- a mnemonic is looked up deep in a literal table
set_option maxRecDepth 4000

/-! ## Reading -/

namespace Instruction

/-- Instructions that have no operand, by mnemonic. -/
def plainOps : List (String × Op Nat) :=
  [("aconst_null", .null), ("iconst_m1", .int (-1)), ("iconst_0", .int 0), ("iconst_1", .int 1),
    ("iconst_2", .int 2), ("iconst_3", .int 3), ("iconst_4", .int 4), ("iconst_5", .int 5),
    ("aload_0", .load .reference 0), ("aload_1", .load .reference 1),
    ("aload_2", .load .reference 2), ("aload_3", .load .reference 3), ("aaload", .arrayLoad),
    ("dup", .dup), ("areturn", .ret (some .reference)), ("athrow", .throw)]

/-- The push of a number or a text. -/
def pushed (pool : Pool) (index : UInt16) : Option (Op Nat) :=
  match pool.get index with
  | .ok (.integer value) => some (.int value)
  | .ok (.string text) => (pool.utf8 text).toOption.map .string
  | _ => none

/-- The call of a method. -/
def called (pool : Pool) (kind : CallKind) (index : UInt16) : Option (Op Nat) :=
  match pool.get index with
  | .ok (.methodRef _ _) | .ok (.interfaceMethodRef _ _) =>
    (pool.memberRef index).toOption.map fun m =>
      .invoke kind ⟨m.owner, m.name, m.descriptor, m.inInterface⟩
  | _ => none

/-- An instruction with a constant. -/
def ofConstant (pool : Pool) (name : String) (index : UInt16) : Option (Op Nat) :=
  if name = "ldc" ∨ name = "ldc_w" then pushed pool index
  else if name = "invokevirtual" then called pool .virtual index
  else if name = "invokespecial" then called pool .special index
  else if name = "invokestatic" then called pool .static index
  else if name = "new" then (pool.className index).toOption.map .new
  else if name = "checkcast" then (pool.className index).toOption.map .cast
  else none

/-- **The symbolic instruction that an instruction stands for**, with offsets for places. -/
def symbolic (pool : Pool) (i : Instruction) : Option (Op Nat) := do
  let name ← i.opcode.mnemonic
  match i.isWide, i.operand with
  | _, .local index => if name = "aload" then some (.load .reference index) else none
  | false, .none => plainOps.lookup name
  | false, .int value => if name = "bipush" ∨ name = "sipush" then some (.int value) else none
  | false, .constant index => ofConstant pool name index
  | false, .lookupSwitch fallback cases =>
    if name = "lookupswitch" then
      some (.lookupSwitch fallback.toNat (cases.map fun (key, target) => (key, target.toNat)))
    else none
  | _, _ => none

/-! ## Mnemonics with a number -/

/-- The mnemonics that begin with a text. -/
theorem mem_of_mnemonic {opcode : Opcode} {front back : String} (names : List String)
    (hnames : ∀ name ∈ Opcode.mnemonics.toList, front.toList <+: name.toList → name ∈ names)
    (h : opcode.mnemonic = some (front ++ back)) : front ++ back ∈ names := by
  refine hnames _ ?_ ⟨back.toList, String.toList_append.symm⟩
  rw [Array.mem_toList_iff]
  exact Array.mem_of_getElem? h

/-- The local variable that is part of a mnemonic. -/
theorem le_three_of_mnemonic {opcode : Opcode} {n : Nat}
    (h : opcode.mnemonic = some ("aload_" ++ toString n)) : n ≤ 3 := by
  have hmem := mem_of_mnemonic ["aload_" ++ toString 0, "aload_" ++ toString 1,
    "aload_" ++ toString 2, "aload_" ++ toString 3] (by decide +kernel) h
  have hone : ∀ k : Nat, "aload_" ++ toString n = "aload_" ++ toString k → n = k := fun k hk =>
    Nat.repr_inj.1 ((String.append_right_inj _).1 hk)
  simp only [List.mem_cons, List.not_mem_nil, or_false] at hmem
  rcases hmem with hk | hk | hk | hk <;> · have := hone _ hk; omega

/-- The number that is part of a mnemonic. -/
theorem le_five_of_mnemonic {opcode : Opcode} {z : Int}
    (h : opcode.mnemonic = some ("iconst_" ++ toString z)) : 0 ≤ z ∧ z ≤ 5 := by
  have hmem := mem_of_mnemonic ["iconst_" ++ "m1", "iconst_" ++ toString (0 : Int),
    "iconst_" ++ toString (1 : Int), "iconst_" ++ toString (2 : Int),
    "iconst_" ++ toString (3 : Int), "iconst_" ++ toString (4 : Int),
    "iconst_" ++ toString (5 : Int)] (by decide +kernel) h
  have hone : ∀ k : Int, "iconst_" ++ toString z = "iconst_" ++ toString k → z = k := fun k hk =>
    Int.repr_inj.1 ((String.append_right_inj _).1 hk)
  have hminus : "iconst_" ++ toString z ≠ "iconst_" ++ "m1" := fun hk => by
    have hread := String.isInt_of_toInt?_eq_some (Int.toInt?_repr z)
    rw [show z.repr = "m1" from (String.append_right_inj _).1 hk, String.isInt_iff] at hread
    rcases hread with hdigits | ⟨t, ht, -⟩
    · exact absurd ((String.isNat_iff.1 hdigits).2.1 'm' (by decide)) (by decide)
    · have hfirst := congrArg (fun s => s.toList.head?) ht
      simp only [String.toList_append] at hfirst
      exact absurd hfirst (by simp)
  simp only [List.mem_cons, List.not_mem_nil, or_false] at hmem
  rcases hmem with hk | hk | hk | hk | hk | hk | hk
  · exact absurd hk hminus
  all_goals
    have := hone _ hk
    omega

/-! ## What is read -/

variable {pool : Pool} {i : Instruction} {index : UInt16} {op : Op Nat}

theorem symbolic_plain {name : String} (h : i.Is name .none)
    (hop : plainOps.lookup name = some op) : i.symbolic pool = some op := by
  obtain ⟨hname, hwide, hoperand⟩ := h
  simp only [symbolic, hname, hwide, hoperand, Option.bind_eq_bind, Option.bind_some, hop]

theorem symbolic_constant {name : String} (h : i.Is name (.constant index)) :
    i.symbolic pool = ofConstant pool name index := by
  obtain ⟨hname, hwide, hoperand⟩ := h
  simp only [symbolic, hname, hwide, hoperand, Option.bind_eq_bind, Option.bind_some]

theorem symbolic_loadsConstant (h : i.LoadsConstant index) :
    i.symbolic pool = pushed pool index := by
  rcases h with h | h
  · rw [symbolic_constant h, ofConstant, if_pos (.inl rfl)]
  · rw [symbolic_constant h, ofConstant, if_pos (.inr rfl)]

/-- **A load of an object** is read from each of its forms. -/
theorem symbolic_load (h : i.AccessesLocal "aload" index) :
    i.symbolic pool = some (.load .reference index) := by
  cases h with
  | named h =>
    obtain ⟨n, hn, rfl⟩ : ∃ n ≤ 3, index = UInt16.ofNat n :=
      ⟨_, le_three_of_mnemonic h.1, UInt16.ofNat_toNat.symm⟩
    refine symbolic_plain h ?_
    obtain rfl | rfl | rfl | rfl : n = 0 ∨ n = 1 ∨ n = 2 ∨ n = 3 := by omega
    all_goals decide
  | plain h =>
    obtain ⟨hname, hwide, hoperand⟩ := h
    simp only [symbolic, hname, hoperand, Option.bind_eq_bind, Option.bind_some, if_true]
  | wide hname hwide hoperand =>
    simp only [symbolic, hname, hoperand, Option.bind_eq_bind, Option.bind_some, if_true]

/-- **The push of a number** is read from each of its forms. -/
theorem symbolic_int {value : Int32} (h : i.PushesInt pool value) :
    i.symbolic pool = some (.int value) := by
  cases h with
  | minusOne hvalue h => exact symbolic_plain h (by rw [hvalue]; decide)
  | named h =>
    obtain ⟨z, ⟨hnonneg, hle⟩, rfl⟩ : ∃ z : Int, (0 ≤ z ∧ z ≤ 5) ∧ value = Int32.ofInt z :=
      ⟨_, le_five_of_mnemonic h.1, (Int32.ofInt_toInt value).symm⟩
    refine symbolic_plain h ?_
    obtain rfl | rfl | rfl | rfl | rfl | rfl :
      z = 0 ∨ z = 1 ∨ z = 2 ∨ z = 3 ∨ z = 4 ∨ z = 5 := by omega
    all_goals decide
  | byte h | short h =>
    obtain ⟨hname, hwide, hoperand⟩ := h
    simp only [symbolic, hname, hwide, hoperand, Option.bind_eq_bind, Option.bind_some, true_or,
      or_true, if_true]
  | constant index h hpool => rw [symbolic_loadsConstant h, pushed, hpool]

theorem symbolic_string {text : String} (h : i.LoadsConstant index)
    (hpool : pool.HasString index text) : i.symbolic pool = some (.string text) := by
  obtain ⟨j, hget, htext⟩ := hpool
  rw [symbolic_loadsConstant h, pushed, hget]
  dsimp only
  rw [htext]
  rfl

/-- **The method of a call** is found in the pool. -/
theorem called_eq {kind : CallKind} {m : Code.MethodRef} (h : pool.HasMethod index m) :
    called pool kind index = some (.invoke kind m) := by
  obtain ⟨holder, name, descriptor, inInterface⟩ := m
  obtain ⟨owner, member, hget, hmember⟩ := h
  have href : pool.memberRef index = .ok ⟨holder, name, descriptor, inInterface⟩ := by
    unfold Pool.memberRef
    rw [hget]
    cases inInterface <;> exact hmember
  unfold called
  rw [href, hget]
  cases inInterface <;> rfl

theorem className_eq {name : String} (h : pool.className index = .ok name) :
    (pool.className index).toOption = some name := by
  rw [h]
  rfl

end Instruction

/-! ## What was written is read -/

namespace Code.Op

/-- Does `Instruction.symbolic` read the instruction, and has it no place? -/
def isLinear {L : Type} : Op L → Bool
  | null | int _ | string _ | load .reference _ | arrayLoad | dup | ret (some .reference) => true
  | invoke .interface _ => false
  | invoke _ _ | new _ | cast _ | throw => true
  | _ => false

end Code.Op

namespace Instruction

open Code.Op

variable {pool : Pool} {i : Instruction} {place : Nat → Option Nat} {op : Op Nat}

/-- **An instruction is read as the one that it is written as.** -/
theorem symbolic_eq (hop : op.isLinear) (h : op.WrittenAs pool place i) :
    i.symbolic pool = some op := by
  cases op with
  | null | arrayLoad | dup | throw => exact symbolic_plain h (by decide)
  | int value => exact symbolic_int h
  | string text =>
    obtain ⟨index, hload, htext⟩ := h
    exact symbolic_string hload htext
  | load kind index =>
    cases kind with
    | reference => exact symbolic_load h
    | _ => cases hop
  | ret kind =>
    match kind, hop with
    | some .reference, _ => exact symbolic_plain h (by decide)
  | new name | cast name =>
    obtain ⟨index, his, hname⟩ := h
    rw [symbolic_constant his]
    simp [ofConstant, className_eq hname]
  | invoke kind m =>
    match kind, hop with
    | .virtual, _ | .special, _ | .static, _ =>
      obtain ⟨index, his, hmethod⟩ := h
      rw [symbolic_constant his]
      simp [ofConstant, CallKind.mnemonic, called_eq hmethod]
  | _ => cases hop

/-- **A switch is read back**: its cases ascend by key, and each leads to the place of its
label. -/
theorem symbolic_lookupSwitch {fallback : Nat} {cases : List (Int32 × Nat)}
    (h : (lookupSwitch fallback cases).WrittenAs pool place i) :
    ∃ (fallback' : Nat) (cases' : List (Int32 × Nat)),
      i.symbolic pool = some (.lookupSwitch fallback' cases') ∧
      place fallback = some fallback' ∧ cases'.Pairwise (fun a b => a.1 < b.1) ∧
      (cases'.map fun (key, target) => (key, some target)).Perm
        (cases.map fun (key, target) => (key, place target)) := by
  obtain ⟨offset, pairs, ⟨hname, hwide, hoperand⟩, hfallback, hsorted, hperm⟩ := h
  refine ⟨offset.toNat, pairs.map fun (key, target) => (key, target.toNat), ?_, hfallback, ?_, ?_⟩
  · simp only [symbolic, hname, hwide, hoperand, Option.bind_eq_bind, Option.bind_some, if_true]
  · exact List.pairwise_map.2 hsorted
  · rw [List.map_map]
    exact hperm

end Instruction

end ProxyForge
