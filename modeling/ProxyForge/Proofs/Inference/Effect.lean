import ProxyForge.Proofs.Inference.Merge
import ProxyForge.Proofs.Outcome
/-!
# What an instruction does to a state

`Effect` lists the three things that an instruction can do to stack and locals, and
`effect_of_step` says that it does nothing else. From it follow the facts that hold of every
instruction: a wide local keeps its second slot, the locals stay within a bound, the stack grows by
one value at most, and a fresh object comes from the instruction that made it.
-/

namespace ProxyForge

namespace Code

/-- The local variables that an instruction loads or stores lie below this. -/
def Op.reach {L : Type} : Op L → Nat
  | .load kind index => index.toNat + kind.slots
  | .store kind index => index.toNat + kind.slots
  | _ => 0

namespace TypeState

open SlotType (top)
open Outcome

variable {m : MethodHeader} {s t r : TypeState} {kind : Kind} {v : SlotType}
  {L : Type} {op : Op L} {offset : Nat}

/-! ## Taking values from the stack -/

theorem pop_eq_ok : s.pop = .ok (v, r) ↔ s = ⟨r.locals, v :: r.stack⟩ := by
  obtain ⟨locals, stack⟩ := s
  obtain ⟨locals', stack'⟩ := r
  cases stack with
  | nil =>
    constructor
    · intro h
      cases h
    · intro h
      cases h
  | cons x rest =>
    constructor
    · intro h
      cases h
      rfl
    · intro h
      cases h
      rfl

theorem popFitting_eq_ok :
    s.popFitting kind = .ok (v, r) ↔ s = ⟨r.locals, v :: r.stack⟩ ∧ v.fits kind := by
  unfold popFitting
  rw [bind_eq_ok]
  constructor
  · rintro ⟨⟨x, q⟩, hpop, h⟩
    dsimp only at h
    split at h
    · cases h
      exact ⟨pop_eq_ok.1 hpop, ‹_›⟩
    · cases h
  · rintro ⟨hs, hfits⟩
    refine ⟨(v, r), pop_eq_ok.2 hs, ?_⟩
    dsimp only
    rw [if_pos hfits]
    rfl

theorem dropKind_eq_ok :
    s.dropKind kind = .ok r ↔ ∃ v, s = ⟨r.locals, v :: r.stack⟩ ∧ v.fits kind := by
  unfold dropKind
  rw [bind_eq_ok]
  constructor
  · rintro ⟨⟨v, q⟩, hpop, h⟩
    cases h
    exact ⟨v, popFitting_eq_ok.1 hpop⟩
  · rintro ⟨v, h⟩
    exact ⟨(v, r), popFitting_eq_ok.2 h, rfl⟩

/-- Taking arguments leaves what lies below them. -/
theorem dropArguments_eq_ok {types : List JvmType} (h : s.dropArguments types = .ok r) :
    ∃ dropped, s = ⟨r.locals, dropped ++ r.stack⟩ := by
  induction types generalizing s with
  | nil =>
    cases h
    exact ⟨[], rfl⟩
  | cons t rest ih =>
    unfold dropArguments at h
    split at h
    · cases h
    · obtain ⟨q, hq, hrest⟩ := bind_eq_ok.1 h
      obtain ⟨v, hs, -⟩ := dropKind_eq_ok.1 hq
      obtain ⟨dropped, hdropped⟩ := ih hrest
      refine ⟨v :: dropped, ?_⟩
      rw [hs, hdropped]
      rfl

/-- A constructor turns a fresh object into an object of its class. -/
theorem constructed_eq_ok {old new : SlotType} (h : constructed m old = .ok new) :
    old.isFresh ∧ ∃ name, new = .object name := by
  cases old <;> cases h <;> exact ⟨rfl, _, rfl⟩

/-- A call takes its receiver, or completes it. -/
theorem dropReceiver_eq_ok {call : CallKind} {method : MethodRef}
    (h : s.dropReceiver m call method = .ok r) :
    (call = .static ∧ r = s) ∨
      ∃ v, (s = ⟨r.locals, v :: r.stack⟩ ∨
        v.isFresh ∧ ∃ (q : TypeState) (name : String), s = ⟨q.locals, v :: q.stack⟩ ∧
          r = q.replace v (.object name)) := by
  unfold dropReceiver at h
  split at h
  · cases h
    exact .inl ⟨rfl, rfl⟩
  · obtain ⟨⟨v, q⟩, hpop, hrest⟩ := bind_eq_ok.1 h
    obtain ⟨hs, -⟩ := popFitting_eq_ok.1 hpop
    refine .inr ⟨v, ?_⟩
    dsimp only at hrest
    split at hrest
    · -- a constructor was called: the receiver is completed wherever it lies
      obtain ⟨new, hnew, hresult⟩ := bind_eq_ok.1 hrest
      obtain ⟨hfresh, name, rfl⟩ := constructed_eq_ok hnew
      cases hresult
      exact .inr ⟨hfresh, q, name, hs, rfl⟩
    · cases hrest
      exact .inl hs

/-! ## Values that are put on the stack -/

/-- **What may be put on the stack**: something known, and a fresh object only if it was there
before or if the instruction makes it. -/
def Pushable (offset : Nat) (op : Op L) (s : TypeState) (v : SlotType) : Prop :=
  v ≠ top ∧ (v.isFresh →
    v ∈ s.locals ∨ v ∈ s.stack ∨ ∃ name, op = .new name ∧ v = .uninitialized offset name)

/-- A value that is no fresh object may be put on any stack. -/
theorem pushable_of_value (htop : v ≠ top) (hv : v.isFresh = false) : Pushable offset op s v :=
  ⟨htop, fun h => absurd (hv.symm.trans h) Bool.false_ne_true⟩

theorem value_ofType {type : JvmType} (h : SlotType.ofType type = some v) :
    v ≠ top ∧ v.isFresh = false := by
  unfold SlotType.ofType at h
  split at h <;> cases h <;> exact ⟨SlotType.noConfusion, rfl⟩

theorem pushable_fieldValue {field : FieldRef} (h : fieldValue field = .ok v) :
    Pushable offset op s v := by
  unfold fieldValue at h
  split at h
  · cases h
  · split at h
    · rename_i hof
      cases h
      exact pushable_of_value (value_ofType hof).1 (value_ofType hof).2
    · cases h

theorem pushable_elementOf {array : SlotType} (h : elementOf array = .ok v) :
    Pushable offset op s v := by
  unfold elementOf at h
  repeat' split at h
  all_goals cases h <;> exact pushable_of_value SlotType.noConfusion rfl

/-! ## Effects -/

/-- **What an instruction can do** to the slots. -/
inductive Effect (offset : Nat) (op : Op L) (s : TypeState) : TypeState → Prop
  /-- Values are taken from the stack, and one at most is put there. -/
  | stack (dropped rest pushed : List SlotType) (hs : s.stack = dropped ++ rest)
      (hlen : pushed.length ≤ 1) (hpushed : ∀ v ∈ pushed, Pushable offset op s v) :
      Effect offset op s ⟨s.locals, pushed ++ rest⟩
  /-- The value on top of the stack is put into the locals. -/
  | store {rest : List SlotType} {v : SlotType} {kind : Kind} {index : UInt16}
      (hop : op = .store kind index) (hs : s.stack = v :: rest) (hv : v.fits kind) :
      Effect offset op s ⟨storeLocal s.locals index.toNat kind v, rest⟩
  /-- Values are taken from the stack, the last of which is fresh and becomes an object wherever
  it lies. -/
  | complete (dropped rest pushed : List SlotType) {v : SlotType} (name : String)
      (hs : s.stack = dropped ++ v :: rest) (hv : v.isFresh) (hlen : pushed.length ≤ 1)
      (hpushed : ∀ v ∈ pushed, v ≠ top ∧ v.isFresh = false) :
      Effect offset op s ⟨(replace v (.object name) ⟨s.locals, rest⟩).locals,
        pushed ++ (replace v (.object name) ⟨s.locals, rest⟩).stack⟩

namespace Effect

theorem drop (dropped : List SlotType) (hs : s.stack = dropped ++ t.stack)
    (hl : t.locals = s.locals) : Effect offset op s t := by
  have h : Effect offset op s ⟨s.locals, [] ++ t.stack⟩ :=
    .stack dropped t.stack [] hs (Nat.zero_le 1) nofun
  rwa [← hl] at h

theorem dropPush (dropped : List SlotType) {rest : List SlotType} (hs : s.stack = dropped ++ rest)
    (hv : Pushable offset op s v) : Effect offset op s ⟨s.locals, v :: rest⟩ :=
  .stack dropped rest [v] hs (le_refl 1) fun w hw => by
    rwa [List.mem_singleton.1 hw]

end Effect

/-- A call takes its arguments and its receiver, and puts its result on the stack. -/
theorem effect_of_call {call : CallKind} {method : MethodRef}
    (h : s.call m call method = .ok t) : Effect offset op s t := by
  unfold TypeState.call at h
  split at h
  · cases h
  · rename_i params result _
    obtain ⟨q, hq, hcall⟩ := bind_eq_ok.1 h
    obtain ⟨r, hr, hresult⟩ := bind_eq_ok.1 hcall
    obtain ⟨dropped, hs⟩ := dropArguments_eq_ok hq
    -- the result is one value or none
    obtain ⟨pushed, hlen, hpushed, rfl⟩ : ∃ pushed, pushed.length ≤ 1 ∧
        (∀ v ∈ pushed, v ≠ top ∧ v.isFresh = false) ∧ t = ⟨r.locals, pushed ++ r.stack⟩ := by
      split at hresult
      · rename_i v hv
        cases hresult
        exact ⟨[v], le_refl 1, fun w hw => by
          rw [List.mem_singleton.1 hw]
          exact value_ofType hv, rfl⟩
      · cases hresult
        exact ⟨[], Nat.zero_le 1, nofun, rfl⟩
    have hpushable : ∀ v ∈ pushed, Pushable offset op s v := fun v hv =>
      pushable_of_value (hpushed v hv).1 (hpushed v hv).2
    -- no receiver, a receiver that is taken, or one that is completed
    rcases dropReceiver_eq_ok hr with ⟨-, rfl⟩ | ⟨v, hq | ⟨hv, q', name, hq, rfl⟩⟩
    · rw [hs] at hpushable ⊢
      exact .stack dropped r.stack pushed rfl hlen hpushable
    · rw [hs, hq] at hpushable ⊢
      exact .stack (dropped ++ [v]) r.stack pushed (by simp) hlen hpushable
    · rw [hs, hq]
      exact .complete dropped q'.stack pushed name rfl hv hlen hpushed

/-- Taking one value has the effect of taking values. -/
theorem effect_of_dropKind (h : s.dropKind kind = .ok t) : Effect offset op s t := by
  obtain ⟨v, rfl, -⟩ := dropKind_eq_ok.1 h
  exact .drop [v] rfl rfl

/-- **An instruction has one of the effects**, if it does not fail. -/
theorem effect_of_step (htop : top ∉ s.stack) (h : s.step m offset op = .ok t) :
    Effect offset op s t := by
  cases op with
  | null | int _ | string _ | classOf _ =>
    cases h
    exact .dropPush [] rfl (pushable_of_value SlotType.noConfusion rfl)
  | new name =>
    cases h
    exact .dropPush [] rfl ⟨SlotType.noConfusion, fun _ => .inr (.inr ⟨name, rfl, rfl⟩)⟩
  | load kind index =>
    simp only [step] at h
    split at h
    · cases h
    · rename_i v hlocal
      split at h
      · rename_i hfits
        cases h
        exact .dropPush [] rfl ⟨SlotType.ne_top_of_fits hfits,
          fun _ => .inl (List.mem_of_getElem? hlocal)⟩
      · cases h
  | store kind index =>
    obtain ⟨⟨v, r⟩, hpop, hresult⟩ := bind_eq_ok.1 h
    obtain ⟨rfl, hfits⟩ := popFitting_eq_ok.1 hpop
    cases hresult
    exact .store rfl rfl hfits
  | arrayLoad =>
    obtain ⟨r, hr, hrest⟩ := bind_eq_ok.1 h
    obtain ⟨⟨array, q⟩, hq, hlast⟩ := bind_eq_ok.1 hrest
    obtain ⟨v, hv, hresult⟩ := bind_eq_ok.1 hlast
    obtain ⟨i, rfl, -⟩ := dropKind_eq_ok.1 hr
    obtain ⟨rfl, -⟩ := popFitting_eq_ok.1 hq
    cases hresult
    exact .dropPush [i, array] rfl (pushable_elementOf hv)
  | arrayStore =>
    obtain ⟨r, hr, hrest⟩ := bind_eq_ok.1 h
    obtain ⟨q, hq, hlast⟩ := bind_eq_ok.1 hrest
    obtain ⟨v, rfl, -⟩ := dropKind_eq_ok.1 hr
    obtain ⟨i, rfl, -⟩ := dropKind_eq_ok.1 hq
    obtain ⟨array, rfl, -⟩ := dropKind_eq_ok.1 hlast
    exact .drop [v, i, array] rfl rfl
  | pop =>
    obtain ⟨⟨v, r⟩, hpop, hresult⟩ := bind_eq_ok.1 h
    obtain rfl := pop_eq_ok.1 hpop
    dsimp only at hresult
    split at hresult
    · cases hresult
    · cases hresult
      exact .drop [v] rfl rfl
  | dup =>
    simp only [step] at h
    split at h
    · cases h
    · rename_i v rest hs
      have hv : v ∈ s.stack := hs ▸ List.mem_cons_self
      split at h
      · cases h
      · cases h
        -- what is copied was on the stack, so something was known of it
        exact .dropPush [] rfl ⟨fun heq => htop (heq ▸ hv), fun _ => .inr (.inl hv)⟩
  | ret kind =>
    cases kind with
    | none =>
      cases h
      exact .drop [] rfl rfl
    | some kind => exact effect_of_dropKind h
  | getStatic field =>
    obtain ⟨v, hv, hresult⟩ := bind_eq_ok.1 h
    cases hresult
    exact .dropPush [] rfl (pushable_fieldValue hv)
  | putStatic field =>
    obtain ⟨⟨v, r⟩, hpop, hresult⟩ := bind_eq_ok.1 h
    obtain rfl := pop_eq_ok.1 hpop
    cases hresult
    exact .drop [v] rfl rfl
  | getField field =>
    obtain ⟨r, hr, hrest⟩ := bind_eq_ok.1 h
    obtain ⟨v, hv, hresult⟩ := bind_eq_ok.1 hrest
    obtain ⟨owner, rfl, -⟩ := dropKind_eq_ok.1 hr
    cases hresult
    exact .dropPush [owner] rfl (pushable_fieldValue hv)
  | putField field =>
    obtain ⟨⟨v, r⟩, hpop, hrest⟩ := bind_eq_ok.1 h
    obtain rfl := pop_eq_ok.1 hpop
    obtain ⟨owner, rfl, -⟩ := dropKind_eq_ok.1 hrest
    exact .drop [v, owner] rfl rfl
  | invoke call method => exact effect_of_call h
  | newArray element =>
    obtain ⟨r, hr, hresult⟩ := bind_eq_ok.1 h
    obtain ⟨v, rfl, -⟩ := dropKind_eq_ok.1 hr
    cases hresult
    exact .dropPush [v] rfl (pushable_of_value SlotType.noConfusion rfl)
  | cast name =>
    obtain ⟨r, hr, hresult⟩ := bind_eq_ok.1 h
    obtain ⟨v, rfl, -⟩ := dropKind_eq_ok.1 hr
    cases hresult
    exact .dropPush [v] rfl (pushable_of_value SlotType.noConfusion rfl)
  | throw | monitorEnter | monitorExit | lookupSwitch _ _ => exact effect_of_dropKind h
  | jump kind target =>
    cases kind with
    | always =>
      cases h
      exact .drop [] rfl rfl
    | ifNull | ifNonNull => exact effect_of_dropKind h

end TypeState

end Code

end ProxyForge
