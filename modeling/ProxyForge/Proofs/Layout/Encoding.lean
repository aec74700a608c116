import ProxyForge.Proofs.Layout.Meaning
import ProxyForge.Proofs.Layout.Offsets
import ProxyForge.Proofs.Reading
/-!
# Instructions as bytes

The bytes of an instruction are as many as its size (`Op.length_encode`), and they are read as the
instruction that it is written as (`Op.encodes_of_encode`). There is a lemma for each form of
operands; the mnemonics are looked up in the table of the decoder.
-/

namespace ProxyForge

open Outcome Decoder

-- a mnemonic is looked up deep in a literal table
set_option maxRecDepth 4000

variable {offset : Nat} {bytes : Bytes}

/-! ## Numbers in operands -/

namespace Instruction

theorem toInt32_toInt8 {value : Int32} (h : -128 ≤ value.toInt ∧ value.toInt ≤ 127) :
    value.toInt8.toInt32 = value := by
  apply Int32.toInt.inj
  rw [Int8.toInt_toInt32, Int32.toInt_toInt8]
  exact Int.bmod_eq_of_le (by omega) (by omega)

theorem toInt32_toInt16 {value : Int32} (h : -32768 ≤ value.toInt ∧ value.toInt ≤ 32767) :
    value.toInt16.toInt32 = value := by
  apply Int32.toInt.inj
  rw [Int16.toInt_toInt32, Int32.toInt_toInt16]
  exact Int.bmod_eq_of_le (by omega) (by omega)

theorem toUInt16_toUInt8 {n : UInt16} (h : n ≤ 255) : n.toUInt8.toUInt16 = n := by
  apply UInt16.toNat.inj
  have hn : n.toNat ≤ 255 := h
  rw [UInt8.toNat_toUInt16, UInt16.toNat_toUInt8]
  exact Nat.mod_eq_of_lt (by omega)

/-- **A distance leads to its target**, also backwards. -/
theorem toNat_target {place : Nat} {d : Int32} (hoffset : offset ≤ 65535) (hplace : place ≤ 65535)
    (hd : d.toInt = place - offset) : (target offset d).toNat = place := by
  -- as a word the distance is the same number up to multiples of the word size
  have hword : (d.toUInt32.toNat : Int) = d.toInt % 2 ^ 32 := by
    have hmod := Int.bmod_emod (x := d.toBitVec.toNat) (m := 2 ^ 32)
    rw [← BitVec.toInt_eq_toNat_bmod] at hmod
    have hlt := d.toBitVec.isLt
    change (d.toBitVec.toNat : Int) = d.toBitVec.toInt % 2 ^ 32
    omega
  rw [hd] at hword
  rw [target, UInt32.toNat_add, UInt32.toNat_ofNat']
  omega

theorem toInt_length32 {α : Type} {xs : List α} (h : xs.length ≤ 65535) :
    (Bytes.length32 xs).toInt32.toInt = xs.length := by
  change (UInt32.ofNat xs.length).toBitVec.toInt = xs.length
  rw [BitVec.toInt_eq_toNat_of_lt]
  · change ((UInt32.ofNat xs.length).toNat : Int) = xs.length
    rw [UInt32.toNat_ofNat']
    omega
  · change 2 * (UInt32.ofNat xs.length).toNat < 2 ^ 32
    rw [UInt32.toNat_ofNat']
    omega

/-! ## One instruction in the code -/

/-- Bytes at an offset are read as one instruction. -/
def Encodes (offset : Nat) (bytes : Bytes) (P : Instruction → Prop) : Prop :=
  ∃ i, ReadsAt decode offset bytes i ∧ i.offset = offset ∧ P i

theorem Encodes.imp {P Q : Instruction → Prop} (h : Encodes offset bytes P)
    (hPQ : ∀ i, P i → Q i) : Encodes offset bytes Q := by
  obtain ⟨i, hread, hoffset, hP⟩ := h
  exact ⟨i, hread, hoffset, hPQ i hP⟩

end Instruction

/-- An opcode with a mnemonic and a shape of operands, other than `wide`. -/
def Opcode.HasForm (op : Opcode) (name : String) (shape : Opcode.Shape) : Prop :=
  op.mnemonic = some name ∧ op.shape = shape ∧ op ≠ Opcode.wide

instance (op : Opcode) (name : String) (shape : Opcode.Shape) :
    Decidable (op.HasForm name shape) :=
  inferInstanceAs (Decidable (_ ∧ _ ∧ _))

namespace Instruction

variable {op : Opcode} {name : String} {shape : Opcode.Shape} {operand : Operand}

/-- **An opcode and its operands.** -/
theorem encodes_operand (hop : op.HasForm name shape)
    (h : ReadsAt (decodeOperand offset false shape) (offset + 1) bytes operand) :
    Encodes offset (op :: bytes) (·.Is name operand) := by
  obtain ⟨hname, rfl, hwide⟩ := hop
  refine ⟨⟨offset, op, false, operand⟩, ?_, rfl, hname, rfl, rfl⟩
  refine ReadsAt.from_offset (ReadsAt.from_u8 ?_)
  -- the opcode has a mnemonic, and no second one follows it
  rw [hname]
  dsimp only
  rw [beq_false_of_ne hwide]
  exact ReadsAt.bind (ReadsAt.pure op) (h.map _)

/-- An opcode and its operands behind `wide`. -/
theorem encodes_wide {index : UInt16} (hname : op.mnemonic = some name)
    (hshape : op.shape = .local) :
    Encodes offset (Opcode.wide :: op :: Bytes.be16 index) (·.AccessesLocal name index) := by
  refine ⟨⟨offset, op, true, .local index⟩, ?_, rfl, .wide hname rfl rfl⟩
  have hwide : Opcode.wide.mnemonic = some "wide" := by decide
  refine ReadsAt.from_offset (ReadsAt.from_u8 ?_)
  rw [hwide]
  dsimp only
  rw [beq_self_eq_true, if_pos rfl]
  refine ReadsAt.from_u8 ?_
  rw [hshape]
  exact ((ReadsAt.u16 index).map Operand.local).map _

/-- An opcode alone. -/
theorem encodes_plain (hop : op.HasForm name .none) : Encodes offset [op] (·.Is name .none) :=
  encodes_operand hop (.pure _)

/-- An opcode and a constant. -/
theorem encodes_constant16 {constant : UInt16} (hop : op.HasForm name .constant16) :
    Encodes offset (Code.Op.withIndex op constant) (·.Is name (.constant constant)) :=
  encodes_operand hop ((ReadsAt.u16 constant).map _)

end Instruction

namespace Code

namespace Op

open Instruction

variable {pool : Pool} {constant : UInt16} {method : String} {offsets : Array Nat}

/-! ## Constants, locals and numbers -/

theorem encodes_constant (constant : UInt16) :
    Encodes offset (encodeConstant constant) (·.LoadsConstant constant) := by
  unfold encodeConstant
  split
  · rename_i hsmall
    have hop : Opcode.ldc.HasForm "ldc" .constant8 := by decide
    have hread : ReadsAt (decodeOperand offset false .constant8) (offset + 1) [constant.toUInt8]
        (.constant constant.toUInt8.toUInt16) :=
      (ReadsAt.u8 _).map _
    rw [toUInt16_toUInt8 hsmall] at hread
    exact (encodes_operand hop hread).imp fun _ => .inl
  · have hop : Opcode.ldcW.HasForm "ldc_w" .constant16 := by decide
    exact (encodes_constant16 hop).imp fun _ => .inr

/-- **A load or a store is of its kind and index** in each of its forms. -/
theorem encodes_local {long short : Opcode} {kind : Kind} {name : String} (index : UInt16)
    (hlong : (long + kind.index).HasForm name .local)
    (hshort : ∀ n < 4, (short + 4 * kind.index + UInt8.ofNat n).HasForm
      (name ++ "_" ++ toString n) .none) :
    Encodes offset (encodeLocal long short kind index) (·.AccessesLocal name index) := by
  unfold encodeLocal
  split
  · rename_i hnamed
    have hn : index.toNat ≤ 3 := hnamed
    have hop := hshort index.toNat (Nat.lt_succ_of_le hn)
    rw [UInt8.ofNat_uInt16ToNat] at hop
    exact (encodes_plain hop).imp fun _ => .named
  · split
    · rename_i hsmall
      have hread : ReadsAt (decodeOperand offset false .local) (offset + 1) [index.toUInt8]
          (.local index.toUInt8.toUInt16) :=
        (ReadsAt.u8 _).map _
      rw [toUInt16_toUInt8 hsmall] at hread
      exact (encodes_operand hlong hread).imp fun _ => .plain
    · exact encodes_wide hlong.1 hlong.2.1

theorem encodes_load (kind : Kind) (index : UInt16) :
    Encodes offset (encodeLocal Opcode.iload Opcode.iload0 kind index)
      (·.AccessesLocal (kind.letter ++ "load") index) :=
  encodes_local index (by cases kind <;> decide) (by cases kind <;> decide)

theorem encodes_store (kind : Kind) (index : UInt16) :
    Encodes offset (encodeLocal Opcode.istore Opcode.istore0 kind index)
      (·.AccessesLocal (kind.letter ++ "store") index) :=
  encodes_local index (by cases kind <;> decide) (by cases kind <;> decide)

/-- A number with an opcode of its own. -/
theorem encodes_tiny {value : Int32} (h : isTiny value = true) :
    Encodes offset [Opcode.iconst0 + value.toInt8.toUInt8] (·.PushesInt pool value) := by
  simp only [isTiny, Bool.and_eq_true, decide_eq_true_eq] at h
  by_cases hminus : value = -1
  · have hop : (Opcode.iconst0 + (-1 : Int32).toInt8.toUInt8).HasForm "iconst_m1" .none := by
      decide
    rw [hminus]
    exact (encodes_plain hop).imp fun _ => .minusOne rfl
  · have hops : ∀ n < 6, (Opcode.iconst0 + (Int32.ofNat n).toInt8.toUInt8).HasForm
        ("iconst_" ++ toString (Int32.ofNat n).toInt) .none := by
      decide
    -- from 0 to 5 the mnemonic is looked up in the table
    have hne : value.toInt ≠ -1 := fun heq => hminus (Int32.toInt.inj heq)
    have hvalue : value = Int32.ofNat value.toInt.toNat := by
      apply Int32.toInt.inj
      rw [Int32.toInt_ofNat_of_lt (by omega)]
      omega
    rw [hvalue]
    exact (encodes_plain (hops _ (by omega))).imp fun _ => .named

/-- **A number is pushed** in each of its forms. -/
theorem encodes_int {value : Int32}
    (hpool : isShort value = false → pool.get constant = .ok (.integer value)) :
    Encodes offset (encodeInt constant value) (·.PushesInt pool value) := by
  unfold encodeInt
  split
  · rename_i htiny
    exact encodes_tiny htiny
  · split
    · rename_i hbyte
      simp only [isByte, Bool.and_eq_true, decide_eq_true_eq] at hbyte
      have hop : Opcode.bipush.HasForm "bipush" .byte := by decide
      have hread : ReadsAt (decodeOperand offset false .byte) (offset + 1)
          [value.toInt8.toUInt8] (.int value.toInt8.toInt32) :=
        (ReadsAt.i8 _).map _
      rw [toInt32_toInt8 hbyte] at hread
      exact (encodes_operand hop hread).imp fun _ => .byte
    · split
      · rename_i hshort
        simp only [isShort, Bool.and_eq_true, decide_eq_true_eq] at hshort
        have hop : Opcode.sipush.HasForm "sipush" .short := by decide
        have hread : ReadsAt (decodeOperand offset false .short) (offset + 1)
            (Bytes.be16 value.toInt16.toUInt16) (.int value.toInt16.toInt32) :=
          (ReadsAt.i16 _).map _
        rw [toInt32_toInt16 hshort] at hread
        exact (encodes_operand hop hread).imp fun _ => .short
      · rename_i hlong
        exact (encodes_constant constant).imp fun _ h =>
          .constant constant h (hpool (eq_false_of_ne_true hlong))

/-! ## Calls and jumps -/

theorem argumentCount_ok {descriptor : String} {count : UInt8}
    (h : argumentCount descriptor = .ok count) :
    ∃ params result, JvmType.ofMethodDescriptor descriptor = .ok (params, result) ∧
      count.toUInt16 = 1 + JvmType.totalSlots params := by
  unfold argumentCount at h
  split at h
  · cases h
  · rename_i params result hparams
    dsimp only at h
    split at h
    · rename_i hsmall
      cases h
      exact ⟨params, result, hparams, toUInt16_toUInt8 hsmall⟩
    · cases h

/-- An opcode and the index of a constant that is known. -/
theorem encodes_named {op : Opcode} {name : String} {P : UInt16 → Prop}
    (hop : op.HasForm name .constant16) (hconstant : P constant) :
    Encodes offset (withIndex op constant)
      fun i => ∃ index, i.Is name (.constant index) ∧ P index :=
  (encodes_constant16 hop).imp fun _ his => ⟨constant, his, hconstant⟩

/-- **A call names its method.** -/
theorem encodes_call {kind : CallKind} {m : MethodRef} {place : Nat → Option Nat}
    (hpool : pool.HasMethod constant m) (h : encodeCall constant kind m = .ok bytes) :
    Encodes offset bytes (fun i => (invoke kind m).WrittenAs pool place i) := by
  cases kind with
  | interface =>
    obtain ⟨count, hcount, hresult⟩ := bind_eq_ok.1 h
    cases hresult
    have hop : Opcode.invokeinterface.HasForm CallKind.interface.mnemonic .interfaceCall := by
      decide
    have hread : ReadsAt (decodeOperand offset false .interfaceCall) (offset + 1)
        (Bytes.be16 constant ++ [count, 0]) (.interfaceCall constant count) :=
      (ReadsAt.u16 constant).bind (.from_u8 ((ReadsAt.skip [0]).map _))
    exact (encodes_operand hop hread).imp fun _ his =>
      ⟨constant, count, his, hpool, argumentCount_ok hcount⟩
  | virtual =>
    cases h
    exact encodes_named (by decide) hpool
  | special =>
    cases h
    exact encodes_named (by decide) hpool
  | static =>
    cases h
    exact encodes_named (by decide) hpool

/-- **A jump leads to its target.** -/
theorem encodes_jump {kind : JumpKind} {place : Nat} (hoffset : offset ≤ Layout.limit)
    (hplace : place ≤ Layout.limit) (h : encodeJump method offset place kind = .ok bytes) :
    Encodes offset bytes
      fun i => ∃ t : UInt32, i.Is kind.mnemonic (.branch t) ∧ t.toNat = place := by
  have hop : (jumpOpcode kind).HasForm kind.mnemonic .branch16 := by
    cases kind <;> decide
  unfold encodeJump at h
  dsimp only at h
  split at h
  · rename_i hrange
    cases h
    have hdistance : (Int16.ofInt (distance offset place)).toInt32.toInt = place - offset := by
      rw [Int16.toInt_toInt32, Int16.toInt_ofInt_of_le (by omega) (by omega), distance]
    exact (encodes_operand hop ((ReadsAt.i16 _).map _)).imp fun _ his =>
      ⟨_, his, toNat_target hoffset hplace hdistance⟩
  · cases h

/-! ## Switches -/

/-- Sorted keys without a repetition ascend. -/
theorem ascending_of_sorted {L : Type} {cases : List (Int32 × L)}
    (hsorted : cases.Pairwise fun a b => a.1 ≤ b.1) (hnew : hasRepeatedKey cases = false) :
    cases.Pairwise fun a b => a.1 < b.1 := by
  induction cases with
  | nil => exact .nil
  | cons a cases ih =>
    cases cases with
    | nil => exact List.pairwise_singleton _ _
    | cons b rest =>
      simp only [hasRepeatedKey, Bool.or_eq_false_iff, decide_eq_false_iff_not] at hnew
      obtain ⟨hfirst, hothers⟩ := List.pairwise_cons.1 hsorted
      have hascend := ih hothers hnew.2
      -- neighbours differ, so each key is below the next one and with it below all others
      have hlt : a.1 < b.1 := Int32.lt_of_le_of_ne (hfirst b List.mem_cons_self) hnew.1
      refine List.pairwise_cons.2 ⟨fun c hc => ?_, hascend⟩
      rcases List.mem_cons.1 hc with rfl | hrest
      · exact hlt
      · exact Int32.lt_trans hlt ((List.pairwise_cons.1 hascend).1 c hrest)

theorem sortCases_sorted {L : Type} (cases : List (Int32 × L)) :
    (sortCases cases).Pairwise fun a b => a.1 ≤ b.1 := by
  have hsorted := @List.pairwise_mergeSort (Int32 × L) (fun a b => decide (a.1 ≤ b.1))
    (fun _ _ _ hab hbc => decide_eq_true
      (Int32.le_trans (of_decide_eq_true hab) (of_decide_eq_true hbc)))
    (fun a b => by simpa using Int32.le_total a.1 b.1) cases
  exact hsorted.imp of_decide_eq_true

theorem reads_padding :
    ReadsAt skipPadding (offset + 1) (List.replicate (paddingAt offset) 0) () := by
  have hskip : ReadsAt (Decoder.skip (List.replicate (paddingAt offset) (0 : UInt8)).length)
      (offset + 1) (List.replicate (paddingAt offset) 0) () :=
    .skip _
  rw [List.length_replicate] at hskip
  exact .from_offset hskip

/-- Where the distance to a place is read to lead. -/
def readTarget (offset place : Nat) : UInt32 :=
  target offset (Int32.ofInt (distance offset place))

theorem toNat_readTarget {place : Nat} (hoffset : offset ≤ Layout.limit)
    (hplace : place ≤ Layout.limit) : (readTarget offset place).toNat = place := by
  have hlimit : Layout.limit = 65535 := rfl
  refine toNat_target hoffset hplace ?_
  rw [distance, Int32.toInt_ofInt_of_le (by omega) (by omega)]

theorem reads_target (offset position place : Nat) :
    ReadsAt (decodeTarget offset) position (encodeDistance offset place)
      (readTarget offset place) :=
  (ReadsAt.i32 _).map _

theorem reads_case (offset position : Nat) (key : Int32) (place : Nat) :
    ReadsAt (decodeCase offset) position (encodeCase offset key place)
      (key, readTarget offset place) :=
  (ReadsAt.i32 key).bind ((reads_target offset _ place).map _)

/-- The operands of a switch, behind its opcode. -/
theorem reads_switch (offset fallback : Nat) (place : Nat → Nat) {cases : List (Int32 × Nat)}
    (hlen : cases.length ≤ 65535) :
    ReadsAt (decodeOperand offset false .lookupSwitch) (offset + 1)
      (List.replicate (paddingAt offset) 0 ++ (encodeDistance offset fallback ++
        (Bytes.be32 (Bytes.length32 cases) ++
          cases.flatMap fun (key, position) => encodeCase offset key (place position))))
      (.lookupSwitch (readTarget offset fallback)
        (cases.map fun (key, position) => (key, readTarget offset (place position)))) := by
  have hcount := toInt_length32 hlen
  have hpositive : ¬(Bytes.length32 cases).toInt32 < 0 := by
    rw [Int32.lt_iff_toInt_lt, hcount]
    exact Int.not_lt.2 (Int.natCast_nonneg _)
  refine reads_padding.bind ((reads_target offset _ fallback).bind ?_)
  refine (ReadsAt.i32 (Bytes.length32 cases).toInt32).bind ?_
  rw [if_neg hpositive, hcount, Int.toNat_natCast]
  exact (ReadsAt.times_map cases fun case _ at' =>
    reads_case offset at' case.1 (place case.2)).map _

/-- **A switch has its cases**, in the order of their keys. -/
theorem encodes_switch {fallback : Nat} {cases : List (Int32 × Nat)}
    (hoffset : offset ≤ Layout.limit) (hplaces : ∀ i, Layout.offsetAt offsets i ≤ Layout.limit)
    (hlen : cases.length ≤ 65535) (h : encodeSwitch offsets offset fallback cases = .ok bytes) :
    Encodes offset bytes fun i => (lookupSwitch fallback cases).WrittenAs pool
      (fun position => some (Layout.offsetAt offsets position)) i := by
  unfold encodeSwitch at h
  dsimp only at h
  split at h
  · cases h
  · rename_i hrepeated
    cases h
    have hop : Opcode.lookupswitch.HasForm "lookupswitch" .lookupSwitch := by decide
    have hperm : (sortCases cases).Perm cases := List.mergeSort_perm _ _
    have hascending := ascending_of_sorted (sortCases_sorted cases) (eq_false_of_ne_true hrepeated)
    have hread := reads_switch offset (Layout.offsetAt offsets fallback) (Layout.offsetAt offsets)
      (hperm.length_eq ▸ hlen)
    simp only [List.append_assoc, List.cons_append]
    refine (encodes_operand hop hread).imp fun i his => ⟨_, _, his, ?_, ?_, ?_⟩
    · rw [toNat_readTarget hoffset (hplaces fallback)]
    · exact List.pairwise_map.2 hascending
    · -- sorting only changes the order, and each distance leads to its target
      have hoffsets : ∀ case ∈ sortCases cases,
          (case.1, some (readTarget offset (Layout.offsetAt offsets case.2)).toNat) =
            (case.1, some (Layout.offsetAt offsets case.2)) := fun case _ => by
        rw [toNat_readTarget hoffset (hplaces case.2)]
      rw [List.map_map]
      exact (List.map_congr_left hoffsets).symm ▸ hperm.map _

/-! ## Every instruction -/

/-- **The code has the instruction**, if its bytes were written. -/
theorem encodes_of_encode {op : Op Nat} (hplaces : ∀ i, Layout.offsetAt offsets i ≤ Layout.limit)
    (hfits : offset + op.size constant offset ≤ Layout.limit) (hop : op.Names pool constant)
    (h : op.encode method offsets constant offset = .ok bytes) :
    Encodes offset bytes fun i =>
      op.WrittenAs pool (fun position => some (Layout.offsetAt offsets position)) i := by
  have hoffset : offset ≤ Layout.limit := Nat.le_trans (Nat.le_add_right _ _) hfits
  cases op with
  | int value =>
    cases h
    exact encodes_int hop
  | string _ | classOf _ =>
    cases h
    exact (encodes_constant constant).imp fun _ hloads => ⟨constant, hloads, hop⟩
  | load kind index =>
    cases h
    exact encodes_load kind index
  | store kind index =>
    cases h
    exact encodes_store kind index
  | ret kind =>
    cases kind with
    | none =>
      cases h
      exact encodes_plain (by decide)
    | some kind =>
      cases h
      exact encodes_plain (by cases kind <;> decide)
  | getStatic _ | putStatic _ | getField _ | putField _ | new _ | newArray _ | cast _ =>
    cases h
    exact encodes_named (by decide) hop
  | invoke kind m => exact encodes_call hop (mapError_eq_ok.1 h)
  | jump kind target =>
    refine (encodes_jump hoffset (hplaces target) h).imp fun i hjump => ?_
    obtain ⟨t, his, ht⟩ := hjump
    exact ⟨t, his, congrArg some ht.symm⟩
  | lookupSwitch fallback cases =>
    -- a case takes eight bytes, so there are not many in code that fits
    have hlen : cases.length ≤ 65535 := by
      have hlimit : Layout.limit = 65535 := rfl
      simp only [size] at hfits
      omega
    exact encodes_switch hoffset hplaces hlen (mapError_eq_ok.1 h)
  | _ =>
    cases h
    exact encodes_plain (by decide)

theorem length_encodeConstant : (encodeConstant constant).length = constantSize constant := by
  unfold encodeConstant constantSize
  split <;> rfl

theorem length_encodeLocal {long short : Opcode} {kind : Kind} {index : UInt16} :
    (encodeLocal long short kind index).length = localWidth index := by
  unfold encodeLocal localWidth
  split
  · rfl
  · split <;> rfl

theorem length_encodeSwitch {fallback : Nat} {cases : List (Int32 × Nat)}
    (h : encodeSwitch offsets offset fallback cases = .ok bytes) :
    bytes.length = 1 + paddingAt offset + 8 + 8 * cases.length := by
  unfold encodeSwitch at h
  dsimp only at h
  split at h
  · cases h
  · cases h
    have hperm : (sortCases cases).Perm cases := List.mergeSort_perm _ _
    have hpairs : ((sortCases cases).flatMap fun (key, position) =>
        encodeCase offset key (Layout.offsetAt offsets position)).length = 8 * cases.length := by
      rw [← hperm.length_eq, List.length_flatMap]
      simp [encodeCase, encodeDistance, Bytes.be32, Nat.mul_comm]
    simp only [List.length_append, List.length_cons, List.length_replicate, hpairs, encodeDistance,
      Bytes.be32, List.length_nil]
    omega

/-- **The first pass measures what the last one writes.** -/
theorem length_encode {op : Op Nat} (h : op.encode method offsets constant offset = .ok bytes) :
    bytes.length = op.size constant offset := by
  cases op with
  | int value =>
    cases h
    simp only [encodeInt, size]
    repeat' split
    all_goals first | rfl | exact length_encodeConstant
  | string _ | classOf _ =>
    cases h
    exact length_encodeConstant
  | load _ _ | store _ _ =>
    cases h
    exact length_encodeLocal
  | ret kind =>
    cases kind <;> cases h <;> rfl
  | invoke kind m =>
    have hcall := mapError_eq_ok.1 h
    cases kind with
    | interface =>
      obtain ⟨count, -, hresult⟩ := bind_eq_ok.1 hcall
      cases hresult
      rfl
    | virtual | special | static =>
      cases hcall
      rfl
  | jump kind target =>
    simp only [encode, encodeJump] at h
    split at h
    · cases h
      rfl
    · cases h
  | lookupSwitch fallback cases => exact length_encodeSwitch (mapError_eq_ok.1 h)
  | _ =>
    cases h
    rfl

end Op

end Code

end ProxyForge
