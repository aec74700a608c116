import ProxyForge.Proofs.Proxy.Boxing
/-!
# Parameters that are loaded have slots

Slots are counted in sixteen bits, and a method may have more parameters than that. Code that loads
all of them is too long for a class file before the count overflows: beyond the first slots every
load takes four bytes (`Boxing.bound_of_weight`). So in code that is laid out every parameter is
loaded from the slot in which it lies.
-/

namespace ProxyForge

namespace Code

open Outcome

/-- The bytes that an instruction takes at least: those that name a local variable, or those of the
cases of a switch. -/
def Op.weight {L : Type} : Op L → Nat
  | .load _ index => Op.localWidth index
  | .lookupSwitch _ cases => 1 + 8 * cases.length
  | _ => 1

/-- The bytes that instructions take at least. -/
def Op.weightOf {L : Type} (ops : List (Op L)) : Nat :=
  (ops.map Op.weight).sum

@[simp] theorem Op.weightOf_append {L : Type} (ops ops' : List (Op L)) :
    Op.weightOf (ops ++ ops') = Op.weightOf ops + Op.weightOf ops' := by
  simp [Op.weightOf]

@[simp] theorem Op.weightOf_cons {L : Type} (op : Op L) (ops : List (Op L)) :
    Op.weightOf (op :: ops) = op.weight + Op.weightOf ops := by
  simp [Op.weightOf]

theorem Op.weight_pos {L : Type} (op : Op L) : 1 ≤ op.weight := by
  cases op with
  | load kind index => exact Layout.size_pos (Op.load (L := L) kind index) 0 0
  | lookupSwitch fallback cases => exact Nat.le_add_right 1 _
  | _ => exact Nat.le_refl 1

/-- Every instruction takes a byte at least. -/
theorem Op.length_le_weightOf {L : Type} (ops : List (Op L)) : ops.length ≤ Op.weightOf ops := by
  induction ops with
  | nil => exact Nat.le_refl 0
  | cons op ops ih =>
    have := op.weight_pos
    rw [Op.weightOf_cons, List.length_cons]
    omega

theorem Op.weight_le_size {L : Type} (op : Op L) (constant : UInt16) (offset : Nat) :
    op.weight ≤ op.size constant offset := by
  cases op with
  | load kind index => exact le_refl _
  | lookupSwitch fallback cases =>
    simp only [Op.weight, Op.size]
    omega
  | _ => exact Layout.size_pos _ constant offset

theorem Op.weight_resolve {L M ε : Type} {place : L → Except ε M} {op : Op L} {op' : Op M}
    (h : op.resolve place = .ok op') : op'.weight = op.weight :=
  Op.resolve_agrees (f := Op.weight) (fun op => by
    cases op with
    | lookupSwitch fallback cases => exact congrArg (1 + 8 * ·) (List.length_map _)
    | _ => rfl) h

/-- Instructions in front of an offset take no more bytes than that. -/
theorem Layout.Measured.weight_le {ops : List (Op Nat × UInt16)} {offsets : Array Nat}
    (h : Layout.Measured ops offsets) {i : Nat} (hi : i ≤ ops.length) :
    Op.weightOf ((ops.take i).map (·.1)) ≤ Layout.offsetAt offsets i := by
  induction i with
  | zero => exact Nat.zero_le _
  | succ i ih =>
    have hlt : i < ops.length := hi
    have hsize := Op.weight_le_size ops[i].1 ops[i].2 (Layout.offsetAt offsets i)
    rw [h.next i ops[i].1 ops[i].2 (List.getElem?_eq_getElem hlt),
      List.take_succ_eq_append_getElem hlt, List.map_append, Op.weightOf_append]
    have := ih (Nat.le_of_lt hlt)
    simp only [List.map_cons, List.map_nil, Op.weightOf_cons]
    change _ + (_ + 0) ≤ _
    omega

/-- Resolving labels does not make instructions longer. -/
theorem Body.weightOf_resolve {body : Body} {p : Program} (h : body.resolve = .ok p) :
    Op.weightOf p.ops.toList = Op.weightOf body.ops := by
  obtain ⟨hsize, hresolve⟩ := Body.resolve_ops h
  have heq : p.ops.toList.map Op.weight = body.ops.map Op.weight := by
    refine List.ext_getElem (by simp [hsize]) fun i hi hi' => ?_
    rw [List.length_map, Array.length_toList] at hi
    obtain ⟨op, hop, hresolved⟩ := hresolve i _ (Array.getElem?_eq_getElem hi)
    rw [List.length_map] at hi'
    rw [List.getElem?_eq_getElem hi'] at hop
    cases hop
    rw [List.getElem_map, List.getElem_map, Array.getElem_toList]
    exact Op.weight_resolve hresolved
  unfold Op.weightOf
  rw [heq]

/-- **The instructions of a body that is laid out** take no more bytes than there may be. -/
theorem LaidOut.weightOf_le {m : MethodHeader} {body : Body} {p : Program} {l : Layout}
    (hl : LaidOut m body p l) : Op.weightOf body.ops ≤ 65535 := by
  obtain ⟨b, b', hlayout⟩ := hl.layout
  obtain ⟨hmeasured, hlen⟩ := Layout.measured_of_ofProgram hlayout
  have hle := hmeasured.weight_le (le_refl _)
  rw [List.take_length, List.map_fst_zip (by
    rw [length_of_mapM_run (Layout.ofProgram_ok hlayout).1])] at hle
  rw [← Body.weightOf_resolve hl.resolve]
  exact hle.trans (hmeasured.le_limit _)

end Code

namespace Proxy

namespace Boxing

open Code (Op Kind Label)

variable {params : List JvmType}

/-- **Parameters that are all loaded lie within sixteen bits**, if there are bytes for the loads. -/
theorem bound_of_weight {load : JvmType × Nat × UInt16 → List (Op Label)}
    (hload : ∀ t i slot, t ≠ .void → Op.localWidth slot ≤ Op.weightOf (load (t, i, slot)))
    (hparams : ∀ t ∈ params, t ≠ .void) {first : UInt16} (hfirst : first.toNat ≤ 2) (k : Nat)
    (hweight : Op.weightOf ((placed first k params).flatMap load) ≤ 65535) :
    first.toNat + (slotsOf params).length < 65536 := by
  -- `used` are the bytes of the loads in front; slots beyond 255 take two bytes each
  have hall : ∀ used, 2 * first.toNat ≤ used + 516 →
      used + Op.weightOf ((placed first k params).flatMap load) ≤ 65535 →
      first.toNat + (slotsOf params).length < 65536 := by
    clear hfirst hweight
    induction params generalizing first k with
    | nil =>
      intro used _ _
      have := first.toNat_lt
      exact this
    | cons t params ih =>
      intro used hused hweight
      rw [placed, List.flatMap_cons, Op.weightOf_append] at hweight
      have hwidth := hload t k first (hparams t List.mem_cons_self)
      have hslots : t.slots.toNat ≤ 2 := by
        rw [← length_parameterSlots]
        unfold Code.TypeState.parameterSlots Code.SlotType.expand
        split
        · split <;> simp
        · simp
      have hnext : (first + t.slots).toNat = first.toNat + t.slots.toNat := by
        rw [UInt16.toNat_add]
        omega
      have hcost : 2 * (first.toNat + t.slots.toNat) ≤
          used + Op.weightOf (load (t, k, first)) + 516 := by
        unfold Op.localWidth at hwidth
        split at hwidth
        · rename_i hsmall
          have : first.toNat ≤ 3 := hsmall
          omega
        · split at hwidth
          · rename_i hsmall
            have : first.toNat ≤ 255 := hsmall
            omega
          · omega
      have hrest := ih (fun t' ht' => hparams t' (List.mem_cons_of_mem t ht')) (k + 1)
        (used + Op.weightOf (load (t, k, first))) (by rw [hnext]; exact hcost) (by omega)
      rw [slotsOf_cons, List.length_append, length_parameterSlots]
      omega
  exact hall 0 (by omega) (by omega)

/-- Each parameter that is pushed is loaded. -/
theorem weightOf_loadParam {t : JvmType} (ht : t ≠ .void) (slot : UInt16) :
    Op.localWidth slot ≤ Op.weightOf (loadParam (L := Label) t slot) := by
  obtain ⟨_, kind, -, hkind, -⟩ := Code.SlotType.exists_ofType ht
  simp only [loadParam, hkind, Op.weightOf_cons, Op.weight]
  omega

/-- Each parameter that is packed is loaded. -/
theorem weightOf_packArg {t : JvmType} (ht : t ≠ .void) (index : Nat) (slot : UInt16) :
    Op.localWidth slot ≤ Op.weightOf (packArg (L := Label) t index slot) := by
  obtain ⟨_, kind, -, hkind, -⟩ := Code.SlotType.exists_ofType ht
  simp only [packArg, hkind, Op.weightOf_append, Op.weightOf_cons, Op.weight]
  omega

/-- **Parameters that are pushed lie within sixteen bits**, if there are bytes for it. -/
theorem bound_of_pushParams (hparams : ∀ t ∈ params, t ≠ .void) {first : UInt16}
    (hfirst : first.toNat ≤ 2)
    (hweight : Op.weightOf (pushParams (L := Label) params first) ≤ 65535) :
    first.toNat + (slotsOf params).length < 65536 :=
  bound_of_weight (fun _ _ slot ht => weightOf_loadParam ht slot) hparams hfirst 0 hweight

/-- **Parameters that are packed lie within sixteen bits**, if there are bytes for it. -/
theorem bound_of_packParams (hparams : ∀ t ∈ params, t ≠ .void) (first : UInt16)
    (hfirst : first.toNat ≤ 2)
    (hweight : Op.weightOf (packParams (L := Label) params first) ≤ 65535) :
    first.toNat + (slotsOf params).length < 65536 := by
  rw [packParams, Op.weightOf_cons, Op.weightOf_cons] at hweight
  have hall := (Nat.le_add_left _ _).trans ((Nat.le_add_left _ _).trans hweight)
  exact bound_of_weight (fun _ index slot ht => weightOf_packArg ht index slot) hparams hfirst 0 hall

end Boxing

end Proxy

end ProxyForge
