import ProxyForge.Proofs.Frame.Replay
import ProxyForge.Proofs.Inference.Entry
import ProxyForge.Proofs.Interning
/-!
# Slots written to frames

`VerificationType.slot` reads what a type in a frame says of a value, and `SlotType.verification`
writes a type that says so (`readAs_of_mapM`). In a frame a wide value has one entry and unknown
locals at the end have none; `readAs_compactLocals` says that no more than that is lost.
-/

namespace ProxyForge

open Outcome
open ProxyForge.Frame (ReadAs)

variable {b b' : PoolBuilder} {made : Nat → Option String}

namespace VerificationType

open Code (SlotType)

/-- **What a type in a frame says of a value.** Classes are looked up in the pool; `made` is the
class of what the instruction at an offset makes. -/
def slot (p : Pool) (made : Nat → Option String) : VerificationType → Option SlotType
  | top => some .top
  | integer => some .int
  | float => some .float
  | double => some .double
  | long => some .long
  | null => some .null
  | uninitializedThis => some .uninitializedThis
  | object constant => (p.className constant).toOption.map .object
  | uninitialized offset => (made offset.toNat).map (.uninitialized offset.toNat)

theorem isWide_of_slot {p : Pool} {v : VerificationType} {t : SlotType}
    (h : v.slot p made = some t) : v.isWide = t.isWide := by
  cases v with
  | object | uninitialized =>
    obtain ⟨_, -, rfl⟩ := Option.map_eq_some_iff.1 h
    rfl
  | _ =>
    cases h
    rfl

theorem eq_top_of_slot {p : Pool} {t : SlotType} (h : top.slot p made = some t) : t = .top :=
  (Option.some.inj h).symm

/-- What a type says stays so when the pool grows. -/
theorem slot_of_grows (hgrows : b.Grows b') {v : VerificationType} {t : SlotType}
    (h : v.slot b.pool made = some t) : v.slot b'.pool made = some t := by
  cases v with
  | object constant =>
    obtain ⟨name, hname, rfl⟩ := Option.map_eq_some_iff.1 h
    have hok : b.pool.className constant = .ok name := by
      cases hclass : b.pool.className constant with
      | error e =>
        rw [hclass] at hname
        cases hname
      | ok name' =>
        rw [hclass] at hname
        cases hname
        rfl
    simp only [slot, hgrows.className hok]
    rfl
  | _ => exact h

theorem readAs_of_grows (hgrows : b.Grows b') {types : List VerificationType}
    {slots : List SlotType} (h : ReadAs (slot b.pool made) types slots) :
    ReadAs (slot b'.pool made) types slots :=
  h.imp fun _ _ h => slot_of_grows hgrows h

end VerificationType

namespace Code

open SlotType (top)
open TypeState (isWideAt)

/-! ## Writing -/

namespace SlotType

variable {t : SlotType} {slots values : List SlotType} {types : List VerificationType}

/-- A fresh object names its origin, within the offsets that code can have. -/
def Named (made : Nat → Option String) (t : SlotType) : Prop :=
  ∀ offset name, t = .uninitialized offset name → offset ≤ 65535 ∧ made offset = some name

/-- **A slot is written as a type that says as much.** -/
theorem verification_ok {v : VerificationType} (ht : t.Named made)
    (h : t.verification b = .ok v b') : b.Grows b' ∧ v.slot b'.pool made = some t := by
  cases t with
  | object name =>
    obtain ⟨constant, b₁, hclass, hresult⟩ := bind_run_ok.1 h
    obtain ⟨hgrows, hname⟩ := Interner.classRef_ok hclass
    cases hresult
    refine ⟨hgrows, ?_⟩
    simp only [VerificationType.slot, hname]
    rfl
  | uninitialized offset name =>
    obtain ⟨hle, hmade⟩ := ht offset name rfl
    cases h
    have hoffset : (UInt16.ofNat offset).toNat = offset := by
      rw [UInt16.toNat_ofNat']
      exact Nat.mod_eq_of_lt (Nat.lt_succ_of_le hle)
    refine ⟨.refl b, ?_⟩
    simp only [VerificationType.slot, hoffset, hmade]
    rfl
  | _ =>
    cases h
    exact ⟨.refl b, rfl⟩

theorem readAs_of_mapM (hslots : ∀ t ∈ slots, t.Named made)
    (h : slots.mapM verification b = .ok types b') :
    b.Grows b' ∧ ReadAs (VerificationType.slot b'.pool made) types slots := by
  obtain ⟨hgrows, hall⟩ :=
    Interner.mapM_ok (R := fun b t v => VerificationType.slot b.pool made v = some t)
      (fun hgrows h => VerificationType.slot_of_grows hgrows h)
      (fun ht hv => verification_ok (hslots _ ht) hv) h
  exact ⟨hgrows, hall.flip⟩

theorem onlyFull_verification (t : SlotType) : Interner.OnlyFull t.verification := by
  cases t with
  | object name => exact (Interner.OnlyFull.classRef name).bind fun _ => .pure _
  | _ => exact .pure _

/-! ## Compacted locals -/

/-- **One entry for each value**: the entries of paired slots say what the values are. -/
theorem readAs_entries {p : Pool} (h : ReadAs (VerificationType.slot p made) types slots)
    (hpaired : ∀ i, isWideAt slots i → slots[i + 1]? = some top) :
    ∃ values, ReadAs (VerificationType.slot p made) (VerificationType.entries types) values ∧
      spread values = slots := by
  induction types using VerificationType.entries.induct generalizing slots with
  | case1 =>
    cases h
    exact ⟨[], .nil, rfl⟩
  | case2 v hwide =>
    cases h with
    | @cons _ t _ _ hv htail =>
      cases htail
      -- a wide value in the last slot is not paired
      have hw := hpaired 0 (by
        rw [VerificationType.isWide_of_slot hv] at hwide
        exact hwide)
      simp at hw
  | case3 v hwide v' rest ih =>
    cases h with
    | @cons _ t _ _ hv htail =>
      cases htail with
      | @cons _ t' _ slots' hv' htail' =>
        have htwide : t.isWide := VerificationType.isWide_of_slot hv ▸ hwide
        have htop := hpaired 0 htwide
        simp only [Nat.zero_add, List.getElem?_cons_succ, List.getElem?_cons_zero,
          Option.some.injEq] at htop
        subst htop
        -- the second slot belongs to the value, so the rest is paired by itself
        obtain ⟨values, hread, hspread⟩ := ih htail' fun i hi => hpaired (i + 2) hi
        refine ⟨t :: values, ?_, ?_⟩
        · rw [VerificationType.entries.eq_def]
          simp only [hwide, if_true]
          exact .cons hv hread
        · rw [spread_cons, expand, if_pos htwide, hspread]
          rfl
  | case4 v rest hwide ih =>
    cases h with
    | @cons _ t _ slots' hv htail =>
      have htwide : ¬ t.isWide := VerificationType.isWide_of_slot hv ▸ hwide
      obtain ⟨values, hread, hspread⟩ := ih htail fun i hi => hpaired (i + 1) hi
      refine ⟨t :: values, ?_, ?_⟩
      · rw [VerificationType.entries.eq_def]
        simp only [hwide, Bool.false_eq_true, if_false]
        exact .cons hv hread
      · rw [spread_cons, expand, if_neg htwide, hspread]
        rfl

/-- What unknown types say is nothing. -/
theorem eq_tops_of_readAs {p : Pool} {n : Nat}
    (h : ReadAs (VerificationType.slot p made) (List.replicate n .top) slots) :
    slots = List.replicate n top := by
  induction n generalizing slots with
  | zero =>
    cases h
    rfl
  | succ n ih =>
    rw [List.replicate_succ] at h
    cases h with
    | cons hv htail => rw [VerificationType.eq_top_of_slot hv, ih htail, List.replicate_succ]

/-- **Compacted locals say what the slots are**, but for unknown ones at the end. -/
theorem readAs_compactLocals {p : Pool} (h : ReadAs (VerificationType.slot p made) types slots)
    (hpaired : ∀ i, isWideAt slots i → slots[i + 1]? = some top) :
    ∃ values n, ReadAs (VerificationType.slot p made) (VerificationType.compactLocals types)
        values ∧ slots = spread (values ++ List.replicate n top) := by
  obtain ⟨values, hread, hspread⟩ := readAs_entries h hpaired
  obtain ⟨n, hn⟩ := VerificationType.dropTops_append (VerificationType.entries types)
  rw [hn] at hread
  have htake := List.forall₂_take (VerificationType.compactLocals types).length hread
  have hdrop := List.forall₂_drop (VerificationType.compactLocals types).length hread
  rw [VerificationType.compactLocals, List.take_left] at htake
  rw [VerificationType.compactLocals, List.drop_left] at hdrop
  exact ⟨_, n, htake, by rw [← eq_tops_of_readAs hdrop, List.take_append_drop, hspread]⟩

end SlotType

end Code

end ProxyForge
