import ProxyForge.ClassFile.Instruction
import ProxyForge.Code.Layout
import ProxyForge.Proofs.Interning
import ProxyForge.Proofs.Layout.Labels
/-!
# What an instruction is written as

`Op.WrittenAs` says what a symbolic instruction is once it is one of the code, by mnemonic, operand
and the constant behind an index. No byte and no width occurs in it. Interning gives every
instruction an index at which its constant stands (`Op.names_of_intern`), and labels may be looked
up before or after (`Op.WrittenAs.of_resolve`).
-/

namespace ProxyForge

open Outcome

/-! ## Constants -/

namespace Pool

/-- A text constant. -/
def HasString (p : Pool) (index : UInt16) (text : String) : Prop :=
  ∃ i, p.get index = .ok (.string i) ∧ p.utf8 i = .ok text

/-- A field constant. -/
def HasField (p : Pool) (index : UInt16) (f : Code.FieldRef) : Prop :=
  ∃ owner member, p.get index = .ok (.fieldRef owner member) ∧
    p.resolve owner member false = .ok ⟨f.owner, f.name, f.descriptor, false⟩

/-- A method constant, of the kind for an owner that is an interface or of that for a class. -/
def HasMethod (p : Pool) (index : UInt16) (m : Code.MethodRef) : Prop :=
  ∃ owner member,
    p.get index = .ok (if m.inInterface then .interfaceMethodRef owner member
      else .methodRef owner member) ∧
    p.resolve owner member m.inInterface = .ok ⟨m.owner, m.name, m.descriptor, m.inInterface⟩

end Pool

namespace PoolBuilder.Grows

variable {b b' : PoolBuilder} {index : UInt16}

theorem hasString (h : b.Grows b') {text : String} (htext : b.pool.HasString index text) :
    b'.pool.HasString index text := by
  obtain ⟨i, hget, htext⟩ := htext
  exact ⟨i, h _ _ hget, h.utf8 htext⟩

theorem hasField (h : b.Grows b') {f : Code.FieldRef} (hf : b.pool.HasField index f) :
    b'.pool.HasField index f := by
  obtain ⟨owner, member, hget, hmember⟩ := hf
  exact ⟨owner, member, h _ _ hget, h.resolve hmember⟩

theorem hasMethod (h : b.Grows b') {m : Code.MethodRef} (hm : b.pool.HasMethod index m) :
    b'.pool.HasMethod index m := by
  obtain ⟨owner, member, hget, hmember⟩ := hm
  exact ⟨owner, member, h _ _ hget, h.resolve hmember⟩

end PoolBuilder.Grows

/-! ## Instructions of the code -/

namespace Instruction

/-- An instruction that is not behind `wide`, by mnemonic and operand. -/
def Is (i : Instruction) (name : String) (operand : Operand) : Prop :=
  i.opcode.mnemonic = some name ∧ i.isWide = false ∧ i.operand = operand

/-- A load or a store of a local variable, in one of its three forms. -/
inductive AccessesLocal (i : Instruction) (name : String) (index : UInt16) : Prop
  /-- The index is part of the mnemonic. -/
  | named (h : i.Is (name ++ "_" ++ toString index.toNat) .none)
  | plain (h : i.Is name (.local index))
  | wide (hname : i.opcode.mnemonic = some name) (hwide : i.isWide = true)
    (hoperand : i.operand = .local index)

/-- A load of a constant, with an index of one byte or of two. -/
def LoadsConstant (i : Instruction) (index : UInt16) : Prop :=
  i.Is "ldc" (.constant index) ∨ i.Is "ldc_w" (.constant index)

/-- A push of a number, in one of its five forms. -/
inductive PushesInt (i : Instruction) (pool : Pool) (value : Int32) : Prop
  | minusOne (hvalue : value = -1) (h : i.Is "iconst_m1" .none)
  /-- The number is part of the mnemonic. -/
  | named (h : i.Is ("iconst_" ++ toString value.toInt) .none)
  | byte (h : i.Is "bipush" (.int value))
  | short (h : i.Is "sipush" (.int value))
  | constant (index : UInt16) (h : i.LoadsConstant index)
    (hpool : pool.get index = .ok (.integer value))

end Instruction

namespace Code

/-- The letter of a kind in mnemonics. -/
def Kind.letter : Kind → String
  | int => "i"
  | long => "l"
  | float => "f"
  | double => "d"
  | reference => "a"

/-- The mnemonic of a call. -/
def CallKind.mnemonic : CallKind → String
  | virtual => "invokevirtual"
  | special => "invokespecial"
  | static => "invokestatic"
  | interface => "invokeinterface"

/-- The mnemonic of a jump. -/
def JumpKind.mnemonic : JumpKind → String
  | always => "goto"
  | ifNull => "ifnull"
  | ifNonNull => "ifnonnull"

/-- The place of a label in code whose instructions have offsets. -/
def Body.offsetOf (b : Body) (offsets : Array Nat) (label : Label) : Option Nat :=
  b.positions[label]?.bind (offsets[·]?)

namespace Op

variable {L M ε : Type} {pool : Pool} {index : UInt16} {b b' : PoolBuilder}

/-- The constant of the instruction stands at an index. -/
def Names (pool : Pool) (index : UInt16) : Op L → Prop
  | int value => isShort value = false → pool.get index = .ok (.integer value)
  | string text => pool.HasString index text
  | classOf name | new name | newArray name | cast name => pool.className index = .ok name
  | getStatic f | putStatic f | getField f | putField f => pool.HasField index f
  | invoke _ m => pool.HasMethod index m
  | _ => True

/-- **An instruction of the code is the symbolic one.** Labels stand for offsets. The pairs of a
switch ascend by key, and they are its cases. -/
def WrittenAs (pool : Pool) (place : L → Option Nat) (i : Instruction) : Op L → Prop
  | null => i.Is "aconst_null" .none
  | int value => i.PushesInt pool value
  | string text => ∃ index, i.LoadsConstant index ∧ pool.HasString index text
  | classOf name => ∃ index, i.LoadsConstant index ∧ pool.className index = .ok name
  | load kind index => i.AccessesLocal (kind.letter ++ "load") index
  | store kind index => i.AccessesLocal (kind.letter ++ "store") index
  | arrayLoad => i.Is "aaload" .none
  | arrayStore => i.Is "aastore" .none
  | pop => i.Is "pop" .none
  | dup => i.Is "dup" .none
  | ret none => i.Is "return" .none
  | ret (some kind) => i.Is (kind.letter ++ "return") .none
  | getStatic f => ∃ index, i.Is "getstatic" (.constant index) ∧ pool.HasField index f
  | putStatic f => ∃ index, i.Is "putstatic" (.constant index) ∧ pool.HasField index f
  | getField f => ∃ index, i.Is "getfield" (.constant index) ∧ pool.HasField index f
  | putField f => ∃ index, i.Is "putfield" (.constant index) ∧ pool.HasField index f
  | invoke .interface m => ∃ index count,
    i.Is CallKind.interface.mnemonic (.interfaceCall index count) ∧ pool.HasMethod index m ∧
      ∃ params result, JvmType.ofMethodDescriptor m.descriptor = .ok (params, result) ∧
        count.toUInt16 = 1 + JvmType.totalSlots params
  | invoke kind m => ∃ index, i.Is kind.mnemonic (.constant index) ∧ pool.HasMethod index m
  | new name => ∃ index, i.Is "new" (.constant index) ∧ pool.className index = .ok name
  | newArray name =>
    ∃ index, i.Is "anewarray" (.constant index) ∧ pool.className index = .ok name
  | cast name => ∃ index, i.Is "checkcast" (.constant index) ∧ pool.className index = .ok name
  | throw => i.Is "athrow" .none
  | monitorEnter => i.Is "monitorenter" .none
  | monitorExit => i.Is "monitorexit" .none
  | jump kind target => ∃ offset : UInt32,
    i.Is kind.mnemonic (.branch offset) ∧ place target = some offset.toNat
  | lookupSwitch fallback cases => ∃ (offset : UInt32) (pairs : List (Int32 × UInt32)),
    i.Is "lookupswitch" (.lookupSwitch offset pairs) ∧ place fallback = some offset.toNat ∧
      pairs.Pairwise (fun a b => a.1 < b.1) ∧
      (pairs.map fun (key, offset) => (key, some offset.toNat)).Perm
        (cases.map fun (key, target) => (key, place target))

/-! ## Interning -/

theorem Names.grows {op : Op L} (h : b.Grows b') (hop : op.Names b.pool index) :
    op.Names b'.pool index := by
  cases op with
  | int value => exact fun hwide => h _ _ (hop hwide)
  | string text => exact h.hasString hop
  | classOf name | new name | newArray name | cast name => exact h.className hop
  | getStatic f | putStatic f | getField f | putField f => exact h.hasField hop
  | invoke kind m => exact h.hasMethod hop
  | _ => trivial

/-- What an instruction is written as stays in a pool that grows. -/
theorem WrittenAs.grows {op : Op L} {place : L → Option Nat} {i : Instruction} (h : b.Grows b')
    (hop : op.WrittenAs b.pool place i) : op.WrittenAs b'.pool place i := by
  cases op with
  | int value =>
    cases hop with
    | minusOne hvalue hi => exact .minusOne hvalue hi
    | named hi => exact .named hi
    | byte hi => exact .byte hi
    | short hi => exact .short hi
    | constant index hi hget => exact .constant index hi (h _ _ hget)
  | string text =>
    obtain ⟨index, hi, hnames⟩ := hop
    exact ⟨index, hi, h.hasString hnames⟩
  | classOf name | new name | newArray name | cast name =>
    obtain ⟨index, hi, hname⟩ := hop
    exact ⟨index, hi, h.className hname⟩
  | getStatic f | putStatic f | getField f | putField f =>
    obtain ⟨index, hi, hnames⟩ := hop
    exact ⟨index, hi, h.hasField hnames⟩
  | invoke kind m =>
    cases kind with
    | interface =>
      obtain ⟨index, count, hi, hnames, hcount⟩ := hop
      exact ⟨index, count, hi, h.hasMethod hnames, hcount⟩
    | _ =>
      obtain ⟨index, hi, hnames⟩ := hop
      exact ⟨index, hi, h.hasMethod hnames⟩
  | ret kind => cases kind <;> exact hop
  | _ => exact hop

/-- **The constant of an instruction** stands at the index that interning gives. -/
theorem names_of_intern {op : Op L} (h : op.intern b = .ok index b') :
    b.Grows b' ∧ op.Names b'.pool index := by
  cases op with
  | int value =>
    simp only [intern] at h
    split at h
    · rename_i hshort
      cases h
      exact ⟨.refl b, fun hwide => by simp [hshort] at hwide⟩
    · obtain ⟨hgrows, hget⟩ := Interner.integer_ok h
      exact ⟨hgrows, fun _ => hget⟩
  | string text => exact Interner.string_ok h
  | classOf name | new name | newArray name | cast name => exact Interner.classRef_ok h
  | getStatic f | putStatic f | getField f | putField f => exact Interner.fieldRef_ok h
  | invoke kind m => exact Interner.methodRef_ok h
  | _ =>
    cases h
    exact ⟨.refl b, trivial⟩

/-- The constants of all instructions. -/
theorem names_of_mapM_intern {ops : List (Op L)} {constants : List UInt16}
    (h : ops.mapM intern b = .ok constants b') :
    List.Forall₂ (fun op constant => op.Names b'.pool constant) ops constants :=
  (Interner.mapM_ok (R := fun b op constant => op.Names b.pool constant)
    (fun hgrows hop => hop.grows hgrows) (fun _ h => names_of_intern h) h).2

/-! ## Labels -/

/-- **Looking labels up changes nothing**, if a label and its position stand for one offset. -/
theorem WrittenAs.of_resolve {find : L → Except ε M} {place : L → Option Nat}
    {place' : M → Option Nat} {op : Op L} {op' : Op M} {i : Instruction}
    (hplace : ∀ label position, find label = .ok position → place label = place' position)
    (h : op.resolve find = .ok op') (hop : op'.WrittenAs pool place' i) :
    op.WrittenAs pool place i := by
  cases op with
  | jump kind target =>
    obtain ⟨position, hposition, hresult⟩ := bind_eq_ok.1 h
    cases hresult
    obtain ⟨offset, his, hoffset⟩ := hop
    exact ⟨offset, his, (hplace _ _ hposition).trans hoffset⟩
  | lookupSwitch fallback cases =>
    obtain ⟨position, hposition, hrest⟩ := bind_eq_ok.1 h
    obtain ⟨cases', hcases, hresult⟩ := bind_eq_ok.1 hrest
    cases hresult
    obtain ⟨offset, pairs, his, hoffset, hsorted, hperm⟩ := hop
    refine ⟨offset, pairs, his, (hplace _ _ hposition).trans hoffset, hsorted, ?_⟩
    -- case by case, a label and its position stand for one offset
    have hsame : (cases.map fun (key, target) => (key, place target)) =
        cases'.map fun (key, target) => (key, place' target) := by
      refine List.forall₂_eq_eq_eq ▸ List.forall₂_map_left_iff.2 (List.forall₂_map_right_iff.2 ?_)
      refine (resolve_cases hcases).imp fun old new hcase => ?_
      exact Prod.ext hcase.1 (hplace _ _ hcase.2)
    rw [hsame]
    exact hperm
  | ret kind =>
    cases h
    cases kind <;> exact hop
  | invoke kind m =>
    cases h
    cases kind <;> exact hop
  | _ =>
    cases h
    exact hop

end Op

end Code

end ProxyForge
