import ProxyForge.ClassFile.Instruction
import ProxyForge.Proofs.Exactness
/-!
# Which instructions are decoded

Code is decoded exactly if it can be cut into pieces that are read as one instruction each
(`Instruction.decodeAll_eq_ok`). So the instructions follow each other without a gap, and each
takes the bytes that its format asks for (`Instruction.size`). Only the first byte of an
instruction has to be an opcode that is defined, so what stands behind a `wide` prefix may be
anything: `Instruction.decodeAll_defined_iff` says that nothing else is decoded that should not be.
-/

namespace ProxyForge

open Outcome Decoder

/-! ## Opcodes -/

namespace Opcode

/-- An opcode that is not reserved. -/
def IsDefined (op : Opcode) : Prop :=
  op.toNat < 202

instance (op : Opcode) : Decidable op.IsDefined :=
  inferInstanceAs (Decidable (op.toNat < 202))

/-- The opcodes that `wide` may stand before: those that load or store a local variable, `ret` and
`iinc`. -/
def widenable : List Opcode :=
  [0x15, 0x16, 0x17, 0x18, 0x19, 0x36, 0x37, 0x38, 0x39, 0x3a, ret, iinc]

/-- **The opcodes with a mnemonic** are those that are defined. -/
theorem mnemonic_eq_none_iff {op : Opcode} : op.mnemonic = none ↔ ¬ op.IsDefined := by
  have hsize : mnemonics.size = 202 := rfl
  rw [mnemonic, Array.getElem?_eq_none_iff, hsize, IsDefined, Nat.not_lt]

theorem isDefined_of_mnemonic {op : Opcode} {name : String} (h : op.mnemonic = some name) :
    op.IsDefined := by
  by_contra hnot
  rw [mnemonic_eq_none_iff.2 hnot] at h
  cases h

theorem isDefined_of_mem_widenable {op : Opcode} (h : op ∈ widenable) : op.IsDefined := by
  have hall : widenable.all (fun op => op.IsDefined) = true := by decide
  exact of_decide_eq_true (List.all_eq_true.1 hall op h)

end Opcode

/-! ## Bytes that a decoder takes -/

namespace Decoder

variable {α β : Type} {d : Decoder α} {f : α → Decoder β} {n m : Nat}

/-- **A decoder takes `n` bytes** whenever it gives something. -/
def Takes (d : Decoder α) (n : Nat) : Prop :=
  ∀ c x c', d c = .ok x c' → c.rest.length = n + c'.rest.length

namespace Takes

theorem pure (x : α) : Takes (Pure.pure x) 0 := by
  intro c y c' h
  cases h
  exact (Nat.zero_add _).symm

theorem bind (hd : Takes d n) (hf : ∀ x, Takes (f x) m) : Takes (d >>= f) (n + m) := by
  intro c y c' h
  obtain ⟨x, c₁, h₁, h₂⟩ := bind_run_ok.1 h
  rw [hd c x c₁ h₁, hf x c₁ y c' h₂, Nat.add_assoc]

theorem map (g : α → β) (hd : Takes d n) : Takes (do return g (← d)) n :=
  hd.bind fun x => .pure (g x)

theorem take (n : Nat) : Takes (Decoder.take n) n := by
  intro c x c' h
  unfold Decoder.take at h
  dsimp only at h
  split at h
  · cases h
  · next hn =>
    cases h
    rw [List.length_take] at hn
    rw [List.length_drop]
    omega

theorem skip (n : Nat) : Takes (Decoder.skip n) n :=
  (take n).map fun _ => ()

theorem u8 : Takes Decoder.u8 1 := by
  rintro ⟨offset, _ | ⟨a, rest⟩⟩ x c' h
  · cases h
  · cases h
    exact Nat.add_comm rest.length 1

theorem u16 : Takes Decoder.u16 2 := by
  rintro ⟨offset, _ | ⟨a, _ | ⟨b, rest⟩⟩⟩ x c' h
  · cases h
  · cases h
  · cases h
    exact Nat.add_comm rest.length 2

theorem u32 : Takes Decoder.u32 4 := by
  rintro ⟨offset, _ | ⟨a, _ | ⟨b, _ | ⟨c, _ | ⟨d, rest⟩⟩⟩⟩⟩ x c' h
  iterate 4 cases h
  cases h
  exact Nat.add_comm rest.length 4

theorem i32 : Takes Decoder.i32 4 :=
  u32.map _

/-- Several values of the same length, of which there are as many as were asked for. -/
theorem times (hd : Takes d n) {k : Nat} {c c' : Cursor} {xs : List α}
    (h : Decoder.times k d c = .ok xs c') :
    xs.length = k ∧ c.rest.length = n * k + c'.rest.length := by
  have honto : ∀ k acc c, timesOnto d acc k c = .ok xs c' →
      xs.length = acc.length + k ∧ c.rest.length = n * k + c'.rest.length := by
    intro k
    induction k with
    | zero =>
      intro acc c h
      cases h
      exact ⟨List.length_reverse, by rw [Nat.mul_zero, Nat.zero_add]⟩
    | succ k ih =>
      intro acc c h
      obtain ⟨x, c₁, h₁, h₂⟩ := bind_run_ok.1 h
      obtain ⟨hlength, hrest⟩ := ih (x :: acc) c₁ h₂
      rw [List.length_cons] at hlength
      rw [hd c x c₁ h₁, hrest, Nat.mul_succ]
      omega
  have hall := honto k [] c h
  rwa [List.length_nil, Nat.zero_add] at hall

end Takes

end Decoder

namespace Instruction

variable {offset fuel stop : Nat} {code bytes rest : Bytes} {pieces : List Bytes}
  {i : Instruction} {is acc : List Instruction} {c : Cursor}

/-! ## The size of an instruction -/

/-- The bytes of the operands of an instruction, where they begin at an offset. -/
def operandSize (i : Instruction) (start : Nat) : Nat :=
  match i.opcode.shape with
  | .none | .wide => 0
  | .byte | .constant8 | .newArray => 1
  | .local => if i.isWide then 2 else 1
  | .short | .constant16 | .branch16 => 2
  | .newMultiArray => 3
  | .increment => if i.isWide then 4 else 2
  | .branch32 | .interfaceCall | .dynamicCall => 4
  -- the bounds, and a distance for each key and for the default
  | .tableSwitch => padding start + (8 + 4 * i.targets.length)
  -- a key or the count in front of each distance
  | .lookupSwitch => padding start + 8 * i.targets.length

/-- The bytes in front of the operands. -/
def headSize (i : Instruction) : Nat :=
  if i.isWide then 2 else 1

/-- **The bytes of an instruction.** -/
def size (i : Instruction) : Nat :=
  i.headSize + i.operandSize (i.offset + i.headSize)

/-- **Instructions that follow each other** from an offset on, each where the one in front ends,
and the last one up to `stop`. -/
inductive Follow : Nat → List Instruction → Nat → Prop
  | nil (offset : Nat) : Follow offset [] offset
  | cons {i : Instruction} {is : List Instruction} {stop : Nat}
      (h : Follow (i.offset + i.size) is stop) : Follow i.offset (i :: is) stop

theorem takes_decodeTarget (offset : Nat) : Takes (decodeTarget offset) 4 :=
  Takes.i32.map _

theorem takes_decodeCase (offset : Nat) : Takes (decodeCase offset) 8 :=
  Takes.i32.bind fun _ => (takes_decodeTarget offset).map _

theorem length_skipPadding {c c' : Cursor} (h : skipPadding c = .ok () c') :
    c.rest.length = padding c.offset + c'.rest.length :=
  Takes.skip (padding c.offset) c () c' h

/-- **A switch over consecutive keys** has a distance for each of them, and one for the others. -/
theorem length_decodeTableSwitch {start : Nat} {operand : Operand} {isWide : Bool} {op : Opcode}
    (h : decodeTableSwitch offset ⟨start, rest⟩ = .ok operand c) :
    rest.length = padding start +
      (8 + 4 * (targets ⟨offset, op, isWide, operand⟩).length) + c.rest.length := by
  obtain ⟨_, c₁, hpadding, h₁⟩ := bind_run_ok.1 h
  obtain ⟨fallback, c₂, hfallback, h₂⟩ := bind_run_ok.1 h₁
  obtain ⟨low, c₃, hlow, h₃⟩ := bind_run_ok.1 h₂
  obtain ⟨high, c₄, hhigh, h₄⟩ := bind_run_ok.1 h₃
  split at h₄
  · cases h₄
  · obtain ⟨targets, c₅, htargets, hlast⟩ := bind_run_ok.1 h₄
    cases hlast
    obtain ⟨hcount, htargets⟩ := (takes_decodeTarget offset).times htargets
    have hfront := length_skipPadding hpadding
    rw [takes_decodeTarget offset _ _ _ hfallback, Takes.i32 _ _ _ hlow, Takes.i32 _ _ _ hhigh,
      htargets, ← hcount] at hfront
    rw [Instruction.targets, List.length_cons]
    dsimp only at hfront ⊢
    omega

/-- **A switch over listed keys** has a distance behind each of them, and one for the others. -/
theorem length_decodeLookupSwitch {start : Nat} {operand : Operand} {isWide : Bool} {op : Opcode}
    (h : decodeLookupSwitch offset ⟨start, rest⟩ = .ok operand c) :
    rest.length = padding start +
      8 * (targets ⟨offset, op, isWide, operand⟩).length + c.rest.length := by
  obtain ⟨_, c₁, hpadding, h₁⟩ := bind_run_ok.1 h
  obtain ⟨fallback, c₂, hfallback, h₂⟩ := bind_run_ok.1 h₁
  obtain ⟨count, c₃, hcount, h₃⟩ := bind_run_ok.1 h₂
  split at h₃
  · cases h₃
  · obtain ⟨cases, c₄, hcases, hlast⟩ := bind_run_ok.1 h₃
    cases hlast
    obtain ⟨hlength, hcases⟩ := (takes_decodeCase offset).times hcases
    have hfront := length_skipPadding hpadding
    rw [takes_decodeTarget offset _ _ _ hfallback, Takes.i32 _ _ _ hcount, hcases,
      ← hlength] at hfront
    rw [Instruction.targets, List.length_cons, List.length_map]
    dsimp only at hfront ⊢
    omega

/-- **The operands of an instruction take the bytes of its format.** -/
theorem length_decodeOperand {start : Nat} {operand : Operand} {isWide : Bool} {op : Opcode}
    (h : decodeOperand offset isWide op.shape ⟨start, rest⟩ = .ok operand c) :
    rest.length = operandSize ⟨offset, op, isWide, operand⟩ start + c.rest.length := by
  unfold operandSize
  generalize op.shape = shape at h ⊢
  cases shape with
  | none | wide => exact Takes.pure _ _ _ _ h
  | byte => exact (Takes.u8.map UInt8.toInt8).map _ _ _ _ h
  | short => exact (Takes.u16.map UInt16.toInt16).map _ _ _ _ h
  | constant8 | newArray => exact Takes.u8.map _ _ _ _ h
  | constant16 => exact Takes.u16.map _ _ _ _ h
  | branch16 => exact (Takes.u16.map UInt16.toInt16).map _ _ _ _ h
  | branch32 => exact (takes_decodeTarget offset).map _ _ _ _ h
  | interfaceCall =>
    exact (Takes.u16.bind fun _ => Takes.u8.bind fun _ => (Takes.skip 1).map _) _ _ _ h
  | dynamicCall => exact (Takes.u16.bind fun _ => (Takes.skip 2).map _) _ _ _ h
  | newMultiArray => exact (Takes.u16.bind fun _ => Takes.u8.map _) _ _ _ h
  | «local» =>
    cases isWide with
    | true => exact Takes.u16.map _ _ _ _ h
    | false => exact Takes.u8.map _ _ _ _ h
  | increment =>
    cases isWide with
    | true => exact (Takes.u16.bind fun _ => (Takes.u16.map UInt16.toInt16).map _) _ _ _ h
    | false => exact (Takes.u8.bind fun _ => (Takes.u8.map UInt8.toInt8).map _) _ _ _ h
  | tableSwitch => exact length_decodeTableSwitch h
  | lookupSwitch => exact length_decodeLookupSwitch h

/-! ## One instruction -/

/-- **The bytes in front of the operands**: an opcode that is defined, or a prefix and any byte. -/
inductive Head : Bool → Opcode → Bytes → Prop
  | plain {op : Opcode} (hop : op.IsDefined) (hwide : op ≠ Opcode.wide) : Head false op [op]
  | behind (op : Opcode) : Head true op [Opcode.wide, op]

namespace Head

variable {isWide : Bool} {op : Opcode} {head : Bytes}

theorem isDefined (h : Head isWide op head) (hwide : isWide = false) : op.IsDefined := by
  cases h with
  | plain hop _ => exact hop
  | behind => cases hwide

theorem eq_behind (h : Head isWide op head) (hwide : isWide = true) :
    head = [Opcode.wide, op] := by
  cases h with
  | plain => cases hwide
  | behind => rfl

end Head

/-- **What an instruction is decoded from**: its head, and operands of the shape of its opcode. -/
theorem head_of_decode (h : decode ⟨offset, bytes⟩ = .ok i c) : i.offset = offset ∧
    ∃ head tail, Head i.isWide i.opcode head ∧ bytes = head ++ tail ∧
      decodeOperand offset i.isWide i.opcode.shape ⟨offset + head.length, tail⟩ =
        .ok i.operand c := by
  obtain ⟨_, c₀, hoffset, h₀⟩ := bind_run_ok.1 h
  cases hoffset
  obtain ⟨first, c₁, hfirst, h₁⟩ := bind_run_ok.1 h₀
  cases bytes with
  | nil => cases hfirst
  | cons _ tail =>
    cases hfirst
    dsimp only at h₁
    cases hname : Opcode.mnemonic first with
    | none =>
      rw [hname] at h₁
      cases h₁
    | some name =>
      rw [hname] at h₁
      dsimp only at h₁
      by_cases hwide : first = Opcode.wide
      · rw [if_pos (beq_iff_eq.2 hwide), beq_iff_eq.2 hwide] at h₁
        obtain ⟨opcode, c₂, hopcode, h₂⟩ := bind_run_ok.1 h₁
        obtain ⟨operand, c₃, hoperand, hlast⟩ := bind_run_ok.1 h₂
        cases hlast
        cases tail with
        | nil => cases hopcode
        | cons _ tail =>
          cases hopcode
          exact ⟨rfl, _, tail, .behind opcode, hwide ▸ rfl, hoperand⟩
      · rw [if_neg (mt beq_iff_eq.1 hwide), beq_eq_false_iff_ne.2 hwide] at h₁
        obtain ⟨opcode, c₂, hopcode, h₂⟩ := bind_run_ok.1 h₁
        obtain ⟨operand, c₃, hoperand, hlast⟩ := bind_run_ok.1 h₂
        cases hopcode
        cases hlast
        exact ⟨rfl, _, tail, .plain (Opcode.isDefined_of_mnemonic hname) hwide, rfl, hoperand⟩

/-- **An instruction takes the bytes of its format.** -/
theorem length_decode (h : decode ⟨offset, bytes⟩ = .ok i c) :
    bytes.length = i.size + c.rest.length := by
  obtain ⟨rfl, head, tail, hhead, rfl, hoperand⟩ := head_of_decode h
  have htail := length_decodeOperand hoperand
  have hlength : head.length = i.headSize := by
    unfold headSize
    generalize i.isWide = isWide, i.opcode = op at hhead
    cases hhead <;> rfl
  rw [List.length_append, htail, size, hlength, Nat.add_assoc]

theorem size_pos (i : Instruction) : 0 < i.size := by
  unfold size headSize
  split <;> omega

/-- A byte that is no opcode is no instruction. -/
theorem decode_reserved {op : Opcode} (hop : ¬ op.IsDefined) :
    decode ⟨offset, op :: rest⟩ = .error (.unknownOpcode op offset) ⟨offset + 1, rest⟩ := by
  have hoffset : Decoder.offset ⟨offset, op :: rest⟩ = .ok offset ⟨offset, op :: rest⟩ := rfl
  have hfirst : Decoder.u8 ⟨offset, op :: rest⟩ = .ok op ⟨offset + 1, rest⟩ := rfl
  unfold decode
  rw [bind_run_eq hoffset, bind_run_eq hfirst, Opcode.mnemonic_eq_none_iff.2 hop]
  rfl

/-- What stands behind a prefix is the opcode. -/
theorem prefixed_of_decode {op : Opcode}
    (h : decode ⟨offset, Opcode.wide :: op :: rest⟩ = .ok i c) :
    i.isWide = true ∧ i.opcode = op := by
  obtain ⟨-, head, tail, hhead, hcode, -⟩ := head_of_decode h
  generalize i.isWide = isWide, i.opcode = opcode at hhead ⊢
  cases hhead with
  | plain _ hwide =>
    injection hcode with hfirst
    exact absurd hfirst.symm hwide
  | behind =>
    injection hcode with _ hcode
    injection hcode with hop
    exact ⟨rfl, hop.symm⟩

/-- **Behind a prefix any byte is taken for an opcode.** -/
theorem readsAt_behind {op : Opcode} {operands : Bytes} {operand : Operand}
    (h : ReadsAt (decodeOperand offset true op.shape) (offset + 2) operands operand) :
    ReadsAt decode offset (Opcode.wide :: op :: operands) ⟨offset, op, true, operand⟩ := by
  obtain ⟨name, hname⟩ := Option.ne_none_iff_exists'.1
    (mt Opcode.mnemonic_eq_none_iff.1 (not_not.2 (by decide : Opcode.wide.IsDefined)))
  intro rest
  refine bind_run_ok.2 ⟨offset, _, rfl, bind_run_ok.2 ⟨Opcode.wide, _, rfl, ?_⟩⟩
  dsimp only
  rw [hname]
  refine bind_run_ok.2 ⟨op, _, rfl, bind_run_ok.2 ⟨operand, _, h rest, ?_⟩⟩
  rw [List.length_cons, List.length_cons, Nat.add_right_comm, ← Nat.add_assoc]
  rfl

/-! ## Exactness -/

theorem exact_decodeTarget (offset : Nat) : Exact (decodeTarget offset) :=
  Exact.i32.map _

theorem exact_skipPadding : Exact skipPadding :=
  Exact.atOffset.bind fun offset => .skip (padding offset)

theorem exact_decodeOperand (offset : Nat) (isWide : Bool) (shape : Opcode.Shape) :
    Exact (decodeOperand offset isWide shape) := by
  cases shape with
  | none | wide => exact .pure _
  | byte => exact (Exact.u8.map UInt8.toInt8).map _
  | short | branch16 => exact (Exact.u16.map UInt16.toInt16).map _
  | constant8 | newArray => exact Exact.u8.map _
  | constant16 => exact Exact.u16.map _
  | branch32 => exact (exact_decodeTarget offset).map _
  | interfaceCall => exact Exact.u16.bind fun _ => Exact.u8.bind fun _ => (Exact.skip 1).map _
  | dynamicCall => exact Exact.u16.bind fun _ => (Exact.skip 2).map _
  | newMultiArray => exact Exact.u16.bind fun _ => Exact.u8.map _
  | «local» => exact .ite (Exact.u16.map _) (Exact.u8.map _)
  | increment =>
    exact .ite (Exact.u16.bind fun _ => (Exact.u16.map UInt16.toInt16).map _)
      (Exact.u8.bind fun _ => (Exact.u8.map UInt8.toInt8).map _)
  | tableSwitch =>
    refine exact_skipPadding.bind fun _ => (exact_decodeTarget offset).bind fun _ => ?_
    exact Exact.i32.bind fun _ => Exact.i32.bind fun _ =>
      .ite (.fail _) (((exact_decodeTarget offset).times _).map _)
  | lookupSwitch =>
    refine exact_skipPadding.bind fun _ => (exact_decodeTarget offset).bind fun _ => ?_
    exact Exact.i32.bind fun _ => .ite (.fail _)
      (((Exact.i32.bind fun _ => (exact_decodeTarget offset).map _).times _).map _)

theorem exact_decode : Exact decode := by
  refine Exact.atOffset.bind fun offset => Exact.u8.bind fun first => ?_
  split
  · exact .fail _
  · exact .ite (Exact.u8.bind fun _ => (exact_decodeOperand offset _ _).map _)
      ((Exact.pure first).bind fun _ => (exact_decodeOperand offset _ _).map _)

/-! ## Instructions one behind the other -/

/-- Pieces of code from an offset on, each of which is read as one instruction. -/
inductive ReadsAll : Nat → List Bytes → List Instruction → Prop
  | nil {offset : Nat} : ReadsAll offset [] []
  | cons {offset : Nat} {bytes : Bytes} {i : Instruction} {pieces : List Bytes}
      {is : List Instruction} (hread : ReadsAt decode offset bytes i) (hbytes : bytes ≠ [])
      (hrest : ReadsAll (offset + bytes.length) pieces is) :
      ReadsAll offset (bytes :: pieces) (i :: is)

namespace ReadsAll

theorem length_le (h : ReadsAll offset pieces is) : pieces.length ≤ pieces.flatten.length := by
  induction h with
  | nil => exact Nat.le_refl _
  | cons _ hbytes _ ih =>
    have hpos := List.length_pos_iff.2 hbytes
    rw [List.length_cons, List.flatten_cons, List.length_append]
    omega

/-- Pieces in front of pieces. -/
theorem append {more : List Bytes} {is' : List Instruction} (h : ReadsAll offset pieces is)
    (hmore : ReadsAll (offset + pieces.flatten.length) more is') :
    ReadsAll offset (pieces ++ more) (is ++ is') := by
  induction h with
  | nil => exact hmore
  | cons hread hbytes _ ih =>
    rw [List.flatten_cons, List.length_append, ← Nat.add_assoc] at hmore
    exact .cons hread hbytes (ih hmore)

/-- **Instructions in pieces follow each other.** -/
theorem follow (h : ReadsAll offset pieces is) :
    Follow offset is (offset + pieces.flatten.length) := by
  induction h with
  | nil => exact .nil _
  | @cons offset bytes i pieces is hread _ _ ih =>
    obtain ⟨rfl, -⟩ := head_of_decode (hread [])
    have hsize := length_decode (hread [])
    rw [List.append_nil, List.length_nil, Nat.add_zero] at hsize
    rw [hsize] at ih
    rw [List.flatten_cons, List.length_append, hsize, ← Nat.add_assoc]
    exact .cons ih

/-- **Where an instruction stands**: pieces are in front of its head. -/
theorem exists_head (h : ReadsAll offset pieces is) (hi : i ∈ is) :
    ∃ front is' head tail, ReadsAll offset front is' ∧ Head i.isWide i.opcode head ∧
      pieces.flatten = front.flatten ++ (head ++ tail) := by
  induction h with
  | nil => cases hi
  | @cons _ _ _ pieces _ hread hbytes _ ih =>
    rcases List.mem_cons.1 hi with rfl | hi
    · obtain ⟨-, head, tail, hhead, hsplit, -⟩ := head_of_decode (hread [])
      rw [List.append_nil] at hsplit
      refine ⟨[], [], head, tail ++ pieces.flatten, .nil, hhead, ?_⟩
      rw [List.flatten_cons, hsplit, List.append_assoc]
      rfl
    · obtain ⟨front, is', head, tail, hfront, hhead, hsplit⟩ := ih hi
      refine ⟨_ :: front, _ :: is', head, tail, .cons hread hbytes hfront, hhead, ?_⟩
      rw [List.flatten_cons, List.flatten_cons, hsplit, List.append_assoc]

/-- **Pieces are all there is**: code that has them in front is read as their instructions, and
then as others. -/
theorem split {pieces' : List Bytes} {is' : List Instruction} (h : ReadsAll offset pieces is)
    (hall : ReadsAll offset pieces' is') (hcode : pieces'.flatten = pieces.flatten ++ rest) :
    ∃ more is'', is' = is ++ is'' ∧ more.flatten = rest ∧
      ReadsAll (offset + pieces.flatten.length) more is'' := by
  induction h generalizing pieces' is' with
  | nil => exact ⟨pieces', is', rfl, hcode, hall⟩
  | @cons offset bytes i pieces is hread hbytes _ ih =>
    rw [List.flatten_cons, List.append_assoc] at hcode
    cases hall with
    | nil => exact absurd (List.append_eq_nil_iff.1 hcode.symm).1 hbytes
    | @cons _ bytes' i' pieces' is' hread' _ hrest' =>
      rw [List.flatten_cons] at hcode
      -- one instruction is read from the bytes, so both pieces end where it does
      have hsame := (hread' pieces'.flatten).symm.trans
        ((congrArg (fun bytes => decode ⟨offset, bytes⟩) hcode).trans (hread _))
      injection hsame with hi hcursor
      injection hcursor with hoffset hbehind
      obtain ⟨more, is'', rfl, hmore, hreads⟩ :=
        ih (Nat.add_left_cancel hoffset ▸ hrest') hbehind
      refine ⟨more, is'', hi ▸ rfl, hmore, ?_⟩
      rwa [List.flatten_cons, List.length_append, ← Nat.add_assoc]

/-- **The instructions in front are decoded first**, one after the other. -/
theorem decodeAllOnto (h : ReadsAll offset pieces is) :
    decodeAllOnto acc (pieces.length + fuel) ⟨offset, pieces.flatten ++ rest⟩ =
      decodeAllOnto (is.reverse ++ acc) fuel ⟨offset + pieces.flatten.length, rest⟩ := by
  induction h generalizing acc with
  | nil => rw [List.length_nil, Nat.zero_add]; rfl
  | @cons offset bytes i pieces is hread hbytes _ ih =>
    -- there are bytes left, so one more instruction is read
    have hend : Decoder.atEnd ⟨offset, bytes ++ (pieces.flatten ++ rest)⟩ =
        .ok false ⟨offset, bytes ++ (pieces.flatten ++ rest)⟩ := by
      simp [Decoder.atEnd, hbytes]
    rw [List.flatten_cons, List.append_assoc, List.length_cons, Nat.add_right_comm,
      Instruction.decodeAllOnto, bind_run_eq hend, if_neg Bool.false_ne_true,
      bind_run_eq (hread _), ih, List.length_append, Nat.add_assoc, List.reverse_cons,
      List.append_assoc, List.singleton_append]

end ReadsAll

/-- **Pieces are decoded** from the first one to the last. -/
theorem decodeAll_pieces (h : ReadsAll 0 pieces is) : decodeAll pieces.flatten = .ok is := by
  obtain ⟨fuel, hfuel⟩ := Nat.exists_eq_add_of_le h.length_le
  have hrun : decodeAllOnto [] (pieces.length + fuel) ⟨0, pieces.flatten ++ []⟩ =
      decodeAllOnto (is.reverse ++ []) fuel ⟨0 + pieces.flatten.length, []⟩ := h.decodeAllOnto
  rw [← hfuel, List.append_nil, List.append_nil] at hrun
  unfold decodeAll Decoder.run Cursor.start
  rw [hrun]
  cases fuel with
  | zero => exact congrArg Except.ok (List.reverse_reverse is)
  | succ fuel => exact congrArg Except.ok (List.reverse_reverse is)

/-- **What is wrong behind the pieces** is wrong with the code. -/
theorem decodeAll_stop {e : FormatError} (h : ReadsAll 0 pieces is) (hrest : rest ≠ [])
    (hstop : decode ⟨pieces.flatten.length, rest⟩ = .error e c) :
    decodeAll (pieces.flatten ++ rest) = .error e := by
  have hpos := List.length_pos_iff.2 hrest
  have hroom : pieces.length + 1 ≤ (pieces.flatten ++ rest).length := by
    have hlength := h.length_le
    rw [List.length_append]
    omega
  obtain ⟨fuel, hfuel⟩ := Nat.exists_eq_add_of_le hroom
  rw [Nat.add_assoc, Nat.add_comm 1] at hfuel
  have hend : Decoder.atEnd ⟨pieces.flatten.length, rest⟩ =
      .ok false ⟨pieces.flatten.length, rest⟩ := by
    simp [Decoder.atEnd, hrest]
  unfold decodeAll Decoder.run Cursor.start
  rw [hfuel, h.decodeAllOnto, Nat.zero_add, decodeAllOnto, bind_run_eq hend,
    if_neg Bool.false_ne_true, bind_run_error hstop]

/-- **Code that is decoded** is in pieces. -/
theorem readsAll_of_decodeAllOnto
    (h : decodeAllOnto acc fuel ⟨offset, rest⟩ = .ok is c) (hfuel : rest.length ≤ fuel) :
    ∃ pieces is', is = acc.reverse ++ is' ∧ pieces.flatten = rest ∧ ReadsAll offset pieces is' := by
  induction fuel generalizing acc offset rest with
  | zero =>
    cases h
    obtain rfl := List.eq_nil_of_length_eq_zero (Nat.le_zero.1 hfuel)
    exact ⟨[], [], (List.append_nil _).symm, rfl, .nil⟩
  | succ fuel ih =>
    obtain ⟨isEnd, c₀, hend, h₀⟩ := bind_run_ok.1 h
    cases hend
    split at h₀
    · next hempty =>
      cases h₀
      obtain rfl := List.isEmpty_iff.1 hempty
      exact ⟨[], [], (List.append_nil _).symm, rfl, .nil⟩
    · obtain ⟨i, c₁, hdecode, hmore⟩ := bind_run_ok.1 h₀
      obtain ⟨bytes, left, rfl, rfl, hreads, -⟩ := exact_decode offset rest i c₁ hdecode
      have hlength := length_decode hdecode
      have hpos := size_pos i
      rw [List.length_append] at hlength hfuel
      dsimp only at hlength
      obtain ⟨pieces, is', rfl, rfl, hpieces⟩ := ih hmore (by omega)
      refine ⟨bytes :: pieces, i :: is', by simp, List.flatten_cons, .cons hreads ?_ hpieces⟩
      rintro rfl
      rw [List.length_nil] at hlength
      omega

/-- **Code is decoded** exactly if it is in pieces that are read as one instruction each. -/
theorem decodeAll_eq_ok :
    decodeAll code = .ok is ↔ ∃ pieces, pieces.flatten = code ∧ ReadsAll 0 pieces is := by
  constructor
  · intro h
    unfold decodeAll Decoder.run at h
    split at h
    · next hrun =>
      cases h
      obtain ⟨pieces, is', rfl, hcode, hreads⟩ :=
        readsAll_of_decodeAllOnto hrun (Nat.le_refl _)
      exact ⟨pieces, hcode, hreads⟩
    · cases h
  · rintro ⟨pieces, rfl, hreads⟩
    exact decodeAll_pieces hreads

/-- **A prefix out of place**: instructions in front of it, and behind it a byte that is not the
opcode of an instruction with a wide form. -/
def PrefixOutOfPlace (code : Bytes) : Prop :=
  ∃ front is op back, decodeAll front = .ok is ∧ code = front ++ Opcode.wide :: op :: back ∧
    op ∉ Opcode.widenable

/-- **The opcodes that are decoded.** Where code is decoded, its instructions follow each other from
its start to its end, and without a prefix their opcodes are defined. What stands behind a prefix is
not looked at: all opcodes are defined, and prefixed as they may be, exactly if no prefix is out of
place. Behind such code a reserved byte is an error, but with a prefix in front it is taken for an
opcode, as is any other byte with its operands behind it. -/
theorem decodeAll_defined_iff (h : decodeAll code = .ok is) :
    Follow 0 is code.length ∧
    (∀ i ∈ is, i.isWide = false → i.opcode.IsDefined) ∧
    ((∀ i ∈ is, i.opcode.IsDefined ∧ (i.isWide = true → i.opcode ∈ Opcode.widenable)) ↔
      ¬ PrefixOutOfPlace code) ∧
    (∀ (op : Opcode) (rest : Bytes), ¬ op.IsDefined →
      decodeAll (code ++ op :: rest) = .error (.unknownOpcode op code.length)) ∧
    ∀ (op : Opcode) (operands : Bytes) (operand : Operand),
      ReadsAt (decodeOperand code.length true op.shape) (code.length + 2) operands operand →
      decodeAll (code ++ Opcode.wide :: op :: operands) =
        .ok (is ++ [⟨code.length, op, true, operand⟩]) := by
  obtain ⟨pieces, rfl, hreads⟩ := decodeAll_eq_ok.1 h
  refine ⟨?_, ?_, ⟨?_, ?_⟩, ?_, ?_⟩
  · have hfollow := hreads.follow
    rwa [Nat.zero_add] at hfollow
  · intro i hi hplain
    obtain ⟨_, _, head, tail, -, hhead, -⟩ := hreads.exists_head hi
    exact hhead.isDefined hplain
  · rintro hall ⟨front, is', op, back, hfront, hcode, hop⟩
    obtain ⟨pieces', rfl, hreads'⟩ := decodeAll_eq_ok.1 hfront
    obtain ⟨more, is'', rfl, hmore, hbehind⟩ := hreads'.split hreads hcode
    cases hbehind with
    | nil => cases hmore
    | @cons _ bytes i more is'' hread _ _ =>
      -- the instruction behind the prefix has the opcode that is out of place
      have hi := hread more.flatten
      rw [← List.flatten_cons, hmore] at hi
      obtain ⟨hwide, hopcode⟩ := prefixed_of_decode hi
      exact hop (hopcode ▸ (hall i (List.mem_append_right _ List.mem_cons_self)).2 hwide)
  · intro hplaces i hi
    obtain ⟨front, is', head, tail, hfront, hhead, hcode⟩ := hreads.exists_head hi
    cases hwide : i.isWide with
    | false => exact ⟨hhead.isDefined hwide, fun h => absurd h Bool.false_ne_true⟩
    | true =>
      have hop : i.opcode ∈ Opcode.widenable := by
        by_contra hop
        rw [hhead.eq_behind hwide] at hcode
        exact hplaces ⟨_, _, _, _, decodeAll_pieces hfront, hcode, hop⟩
      exact ⟨Opcode.isDefined_of_mem_widenable hop, fun _ => hop⟩
  · intro op rest hop
    exact decodeAll_stop hreads (List.cons_ne_nil _ _) (decode_reserved hop)
  · intro op operands operand hoperand
    have hlast : ReadsAll (0 + pieces.flatten.length) [Opcode.wide :: op :: operands]
        [⟨pieces.flatten.length, op, true, operand⟩] := by
      rw [Nat.zero_add]
      exact .cons (readsAt_behind hoperand) (List.cons_ne_nil _ _) .nil
    have hdecode := decodeAll_pieces (hreads.append hlast)
    rwa [List.flatten_append, List.flatten_singleton] at hdecode

/-- A load with a wide index has its prefix in place. A reserved byte behind it is an error, and
behind a prefix of its own it is an instruction. -/
theorem decodeAll_behind_wide_load :
    decodeAll [0xc4, 0x15, 0x01, 0x00] = .ok [⟨0, 0x15, true, .local 256⟩] ∧
    ¬ PrefixOutOfPlace [0xc4, 0x15, 0x01, 0x00] ∧
    decodeAll [0xc4, 0x15, 0x01, 0x00, 0xff] = .error (.unknownOpcode 0xff 4) ∧
    decodeAll [0xc4, 0x15, 0x01, 0x00, 0xc4, 0xff] =
      .ok [⟨0, 0x15, true, .local 256⟩, ⟨4, 0xff, true, .none⟩] := by
  have hempty : decodeAll [] = .ok [] := rfl
  obtain ⟨-, -, -, -, hbehind⟩ := decodeAll_defined_iff hempty
  have hload := hbehind 0x15 [0x01, 0x00] (.local 256) fun _ => rfl
  obtain ⟨-, -, hplaces, hreserved, hbehind⟩ := decodeAll_defined_iff hload
  exact ⟨hload, hplaces.1 (by decide), hreserved 0xff [] (by decide),
    hbehind 0xff [] .none fun _ => rfl⟩

end Instruction

end ProxyForge
