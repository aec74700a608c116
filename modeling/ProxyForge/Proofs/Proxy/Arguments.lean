import ProxyForge.Proofs.Kinds
import ProxyForge.Proofs.Proxy.Routines
import ProxyForge.Proofs.Proxy.Transport
/-!
# Arguments at the start of a method

Frames start with a receiver and parameters in slots, as the descriptor of the method says. Values
that lie in these slots (`Enters`) are where the code of a generated method looks for them, though
it counts slots by itself (`lies_of_enters`).
-/

namespace ProxyForge

namespace Code.SlotType

variable {t : SlotType} {kind kind' : Kind}

/-- What is known of a value fits one kind only. -/
theorem kind_unique (h : t.fits kind) (h' : t.fits kind') : kind = kind' := by
  cases kind <;> cases kind' <;> simp_all [fits, isReference]

end Code.SlotType

namespace Proxy

open Code (Kind MethodHeader SlotType TypeState)
open Exec (Value)
open Boxing (Lies located slotsOf)

variable {locals : Nat → Option Value} {i : Nat} {t : SlotType} {slots : List SlotType}
  {vs args : List Value} {self : Value} {params ps : List JvmType} {header : MethodHeader}

/-- **Values lie in slots of which something is known**, from a slot on. -/
inductive Laid (locals : Nat → Option Value) : Nat → List SlotType → List Value → Prop
  | nil (i : Nat) : Laid locals i [] []
  /-- A slot of which nothing is known is the second one of a value. -/
  | gap {i : Nat} {slots : List SlotType} {vs : List Value} (h : Laid locals (i + 1) slots vs) :
    Laid locals i (.top :: slots) vs
  | value {i : Nat} {t : SlotType} {slots : List SlotType} {v : Value} {vs : List Value}
    (hlocal : locals i = some v) (hfits : t.fits v.kind) (h : Laid locals (i + 1) slots vs) :
    Laid locals i (t :: slots) (v :: vs)

/-- **A method is entered**: its receiver and its arguments lie in the slots that frames start
with. -/
def Enters (header : MethodHeader) (values : List Value) (locals : Nat → Option Value) : Prop :=
  ∃ e, TypeState.entry header = .ok e ∧ Laid locals 0 e.locals values

/-- A value lies in the first of its slots. -/
theorem Laid.expand (ht : t ≠ .top) (h : Laid locals i (t.expand ++ slots) vs) :
    ∃ v rest, vs = v :: rest ∧ locals i = some v ∧ t.fits v.kind ∧
      Laid locals (i + t.slots) slots rest := by
  unfold SlotType.expand at h
  unfold SlotType.slots
  split at h
  · rename_i hwide
    rw [if_pos hwide]
    cases h with
    | gap _ => exact absurd rfl ht
    | value hlocal hfits h =>
      cases h with
      | gap h => exact ⟨_, _, rfl, hlocal, hfits, h⟩
      | @value _ _ _ v _ _ htop _ => cases hkind : v.kind <;> rw [hkind] at htop <;> cases htop
  · rename_i hwide
    rw [if_neg hwide]
    cases h with
    | gap _ => exact absurd rfl ht
    | value hlocal hfits h => exact ⟨_, _, rfl, hlocal, hfits, h⟩

/-- The first of several parameters, and the others. -/
theorem Laid.cons {p : JvmType} (hp : p ≠ .void) (h : Laid locals i (slotsOf (p :: ps)) vs) :
    ∃ v rest, vs = v :: rest ∧ locals i = some v ∧ Kind.ofType p = some v.kind ∧
      Laid locals (i + p.slots.toNat) (slotsOf ps) rest := by
  obtain ⟨t, kind, ht, hkind, hfits, hslots⟩ := SlotType.exists_ofType hp
  rw [Boxing.slotsOf_cons, Boxing.parameterSlots_eq ht] at h
  have htop : t ≠ .top := by
    rintro rfl
    cases kind <;> cases hfits
  obtain ⟨v, rest, rfl, hlocal, hv, hrest⟩ := h.expand htop
  exact ⟨v, rest, rfl, hlocal, SlotType.kind_unique hfits hv ▸ hkind, hslots ▸ hrest⟩

/-- As many values lie there as there are parameters. -/
theorem Laid.length_eq (hps : ∀ p ∈ ps, p ≠ .void) (h : Laid locals i (slotsOf ps) vs) :
    vs.length = ps.length := by
  induction ps generalizing i vs with
  | nil =>
    cases h
    rfl
  | cons p ps ih =>
    obtain ⟨v, rest, rfl, -, -, hrest⟩ := h.cons (hps p List.mem_cons_self)
    rw [List.length_cons, List.length_cons,
      ih (fun p' hp' => hps p' (List.mem_cons_of_mem p hp')) hrest]

/-- A parameter takes a slot at least. -/
theorem length_le_slotsOf (hparams : ∀ t ∈ params, t ≠ .void) :
    params.length ≤ (slotsOf params).length := by
  induction params with
  | nil => exact Nat.le_refl _
  | cons t params ih =>
    have hone : 0 < t.slots.toNat := by
      cases t with
      | void => exact absurd rfl (hparams .void List.mem_cons_self)
      | primitive p => cases p <;> decide
      | object name | array element => exact Nat.zero_lt_one
    have hrest := ih fun t' ht' => hparams t' (List.mem_cons_of_mem t ht')
    rw [Boxing.slotsOf_cons, List.length_append, Boxing.length_parameterSlots, List.length_cons]
    omega

/-- A type takes the slots of its kind. -/
theorem slots_ofType (t : JvmType) : t.slots =
    match Kind.ofType t with
    | none => 0
    | some kind => UInt16.ofNat kind.slots := by
  cases t with
  | primitive p => cases p <;> rfl
  | _ => rfl

/-- Types of one kind take as many slots. -/
theorem slots_eq {p q : JvmType} (h : Kind.ofType p = Kind.ofType q) : p.slots = q.slots := by
  rw [slots_ofType p, slots_ofType q, h]

/-- **Arguments lie where they are looked for**, if the types that were counted are of the kinds
of the parameters. -/
theorem Laid.lies (first : UInt16) (hps : ∀ p ∈ ps, p ≠ .void)
    (hkinds : ps.map Kind.ofType = params.map Kind.ofType)
    (hbound : first.toNat + (slotsOf params).length < 65536)
    (h : Laid locals first.toNat (slotsOf ps) args) : Lies locals first params args := by
  induction ps generalizing first params args with
  | nil =>
    obtain rfl := List.map_eq_nil_iff.1 hkinds.symm
    cases h
    exact .nil
  | cons p ps ih =>
    obtain ⟨t, params, rfl, hkind, hkinds'⟩ := List.map_eq_cons_iff.1 hkinds.symm
    obtain ⟨v, rest, rfl, hlocal, hv, hrest⟩ := h.cons (hps p List.mem_cons_self)
    rw [Boxing.slotsOf_cons, List.length_append, Boxing.length_parameterSlots] at hbound
    have hnext : (first + t.slots).toNat = first.toNat + t.slots.toNat := by
      rw [UInt16.toNat_add]
      omega
    rw [slots_eq hkind.symm, ← hnext] at hrest
    exact .cons ⟨hlocal, hkind.trans hv⟩
      (ih _ (fun p' hp' => hps p' (List.mem_cons_of_mem p hp')) hkinds'.symm (by omega) hrest)

/-- **Where an instance method looks for its arguments, they lie.** -/
theorem lies_of_enters {result : JvmType} (hstatic : header.isStatic = false)
    (hdescriptor : header.descriptor = JvmType.methodDescriptor params result)
    (hparams : ∀ t ∈ params, t ≠ .void) (hbound : 1 + (slotsOf params).length < 65536)
    (hlength : args.length = params.length) (h : Enters header (self :: args) locals) :
    locals 0 = some self ∧ self.kind = .reference ∧ Lies locals 1 params args := by
  obtain ⟨e, he, hlaid⟩ := h
  obtain ⟨v, hreceiver, hv, -⟩ := TypeState.exists_receiver hstatic
  unfold TypeState.entry at he
  split at he
  · cases he
  · rename_i ps t hparse
    cases he
    rw [hreceiver] at hlaid
    have htop : v ≠ .top := by
      rintro rfl
      cases hv
    cases hlaid with
    | gap _ => exact absurd rfl htop
    | value hself hfits hlaid =>
      rw [hdescriptor] at hparse
      have hps := JvmType.ne_void_of_ofMethodDescriptor hparse
      have hcount : ps.length = params.length := (hlaid.length_eq hps).symm.trans hlength
      exact ⟨hself, SlotType.kind_unique hfits hv,
        Laid.lies 1 hps (JvmType.kinds_of_methodDescriptor hparams hparse hcount) hbound
          hlaid⟩

end Proxy

end ProxyForge
