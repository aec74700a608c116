import ProxyForge.Code.Layout
import ProxyForge.Proofs.Interning
/-!
# Offsets of a layout

The first instruction starts at zero, and each one starts where the one in front of it ends
(`Layout.Measured`). So offsets ascend strictly, and there are no more instructions than bytes.
-/

namespace ProxyForge

namespace Code

namespace Layout

open Outcome

variable {method : String} {p : Program} {l : Layout} {b b' : PoolBuilder}
  {ops : List (Op Nat × UInt16)} {offsets : Array Nat}

/-! ## What a layout consists of -/

/-- **The passes of a layout**: constants, offsets, bytes. -/
theorem ofProgram_ok (h : ofProgram method p b = .ok l b') :
    p.ops.toList.mapM Op.intern b = .ok l.constants b' ∧
      offsetsFrom 0 #[] (p.ops.toList.zip l.constants) = .ok l.offsets ∧
      encodeOps method l.offsets (p.ops.toList.zip l.constants) = .ok l.code := by
  obtain ⟨constants, b₁, hconstants, hrest⟩ := bind_run_ok.1 h
  obtain ⟨offsets, b₂, hoffsets, hlast⟩ := bind_run_ok.1 hrest
  obtain ⟨code, b₃, hcode, hresult⟩ := bind_run_ok.1 hlast
  obtain ⟨hmeasured, rfl⟩ := Interner.lift_ok hoffsets
  obtain ⟨hbytes, rfl⟩ := Interner.lift_ok hcode
  cases hresult
  exact ⟨hconstants, mapError_eq_ok.1 hmeasured, hbytes⟩

/-! ## Offsets -/

/-- Every instruction has bytes. -/
theorem size_pos {L : Type} (op : Op L) (constant : UInt16) (offset : Nat) :
    0 < op.size constant offset := by
  have hconstant : 0 < Op.constantSize constant := by
    unfold Op.constantSize
    split <;> omega
  have hlocal : ∀ index, 0 < Op.localWidth index := fun index => by
    unfold Op.localWidth
    split
    · omega
    · split <;> omega
  cases op with
  | int value =>
    simp only [Op.size]
    repeat' split
    all_goals omega
  | string _ | classOf _ => exact hconstant
  | load _ index | store _ index => exact hlocal index
  | invoke kind _ => cases kind <;> simp [Op.size]
  | lookupSwitch _ cases =>
    simp only [Op.size]
    omega
  | _ => simp [Op.size]

/-- **The offsets of instructions**: each one starts where the one in front of it ends. -/
structure Measured (ops : List (Op Nat × UInt16)) (offsets : Array Nat) : Prop where
  size : offsets.size = ops.length + 1
  first : offsetAt offsets 0 = 0
  next : ∀ (i : Nat) (op : Op Nat) (constant : UInt16), ops[i]? = some (op, constant) →
    offsetAt offsets (i + 1) = offsetAt offsets i + op.size constant (offsetAt offsets i)
  le_limit : ∀ i, offsetAt offsets i ≤ limit

theorem offsetAt_push (offsets : Array Nat) (offset i : Nat) :
    offsetAt (offsets.push offset) i = if i = offsets.size then offset else offsetAt offsets i := by
  simp only [offsetAt, Array.getD_eq_getD_getElem?, Array.getElem?_push]
  split <;> rfl

theorem offsetsFrom_ok {offset : Nat} {acc : Array Nat} (hacc : ∀ i, offsetAt acc i ≤ limit)
    (hoffset : offset ≤ limit) (h : offsetsFrom offset acc ops = .ok offsets) :
    offsets.size = acc.size + ops.length + 1 ∧
      (∀ i < acc.size, offsetAt offsets i = offsetAt acc i) ∧
      offsetAt offsets acc.size = offset ∧
      (∀ (i : Nat) (op : Op Nat) (constant : UInt16), ops[i]? = some (op, constant) →
        offsetAt offsets (acc.size + i + 1) = offsetAt offsets (acc.size + i) +
          op.size constant (offsetAt offsets (acc.size + i))) ∧
      ∀ i, offsetAt offsets i ≤ limit := by
  have hpushLe : ∀ i, offsetAt (acc.push offset) i ≤ limit := fun i => by
    rw [offsetAt_push]
    split
    · exact hoffset
    · exact hacc i
  induction ops generalizing offset acc with
  | nil =>
    cases h
    refine ⟨by simp, fun i hi => ?_, ?_, nofun, hpushLe⟩
    · rw [offsetAt_push, if_neg (Nat.ne_of_lt hi)]
    · rw [offsetAt_push, if_pos rfl]
  | cons head ops ih =>
    obtain ⟨op, constant⟩ := head
    simp only [offsetsFrom] at h
    split at h
    · cases h
    · rename_i hnext
      -- the rest is measured from the next offset on, behind the one that was pushed
      obtain ⟨hsize, hbefore, hhere, hbehind, hle⟩ := ih hpushLe (Nat.le_of_not_lt hnext) h
        (fun i => by
          rw [offsetAt_push]
          split
          · exact Nat.le_of_not_lt hnext
          · exact hpushLe i)
      rw [Array.size_push] at hsize hbefore hhere hbehind
      have hfirst : offsetAt offsets acc.size = offset := by
        rw [hbefore _ (Nat.lt_succ_self _), offsetAt_push, if_pos rfl]
      refine ⟨by rw [hsize, List.length_cons]; omega, fun i hi => ?_, hfirst, ?_, hle⟩
      · rw [hbefore i (Nat.lt_succ_of_lt hi), offsetAt_push, if_neg (Nat.ne_of_lt hi)]
      · intro i op' constant' hi
        cases i with
        | zero =>
          cases hi
          simp only [Nat.add_zero]
          rw [hhere, hfirst]
        | succ i =>
          have := hbehind i op' constant' hi
          rwa [show acc.size + 1 + i = acc.size + (i + 1) by omega] at this

/-- **The first pass measures the instructions.** -/
theorem measured (h : offsetsFrom 0 #[] ops = .ok offsets) : Measured ops offsets := by
  obtain ⟨hsize, -, hfirst, hnext, hle⟩ :=
    offsetsFrom_ok (fun i => Nat.zero_le _) (Nat.zero_le _) h
  simp only [List.size_toArray, List.length_nil, Nat.zero_add] at hsize hfirst hnext
  exact ⟨hsize, hfirst, hnext, hle⟩

namespace Measured

theorem lt_next (h : Measured ops offsets) {i : Nat} (hi : i < ops.length) :
    offsetAt offsets i < offsetAt offsets (i + 1) := by
  rw [h.next i ops[i].1 ops[i].2 (List.getElem?_eq_getElem hi)]
  exact Nat.lt_add_of_pos_right (size_pos _ _ _)

/-- **Offsets ascend.** -/
theorem lt_of_lt (h : Measured ops offsets) {i j : Nat} (hij : i < j) (hj : j ≤ ops.length) :
    offsetAt offsets i < offsetAt offsets j := by
  induction j with
  | zero => exact absurd hij (Nat.not_lt_zero i)
  | succ j ih =>
    rcases Nat.lt_succ_iff_lt_or_eq.1 hij with hlt | rfl
    · exact Nat.lt_trans (ih hlt (Nat.le_of_succ_le hj)) (h.lt_next hj)
    · exact h.lt_next hj

theorem le_offsetAt (h : Measured ops offsets) {i : Nat} (hi : i ≤ ops.length) :
    i ≤ offsetAt offsets i := by
  induction i with
  | zero => exact Nat.zero_le _
  | succ i ih =>
    exact Nat.succ_le_of_lt (Nat.lt_of_le_of_lt (ih (Nat.le_of_succ_le hi)) (h.lt_next hi))

/-- There are no more instructions than bytes. -/
theorem length_le (h : Measured ops offsets) : ops.length ≤ limit :=
  Nat.le_trans (h.le_offsetAt (Nat.le_refl _)) (h.le_limit _)

end Measured

/-- **The offsets of a program that is laid out.** -/
theorem measured_of_ofProgram (h : ofProgram method p b = .ok l b') :
    Measured (p.ops.toList.zip l.constants) l.offsets ∧
      (p.ops.toList.zip l.constants).length = p.ops.size := by
  obtain ⟨hconstants, hoffsets, -⟩ := ofProgram_ok h
  refine ⟨measured hoffsets, ?_⟩
  rw [List.length_zip, length_of_mapM_run hconstants, Nat.min_self, Array.length_toList]

end Layout

end Code

end ProxyForge
