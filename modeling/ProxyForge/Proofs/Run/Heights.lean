import ProxyForge.Proofs.Inference.Typing
import ProxyForge.Proofs.Run.Machine
/-!
# The height of the stack

Types and terms are two views of one stack: where an instruction has an effect on both, it leaves
as many types as terms (`Run.length_stack_step`). So the height that a typing says at a position is
that of a run which came there (`Run.height_of_steps`), and a call of which the typing approves
finds its operands (`Code.Context.Typing.operands`).
-/

namespace ProxyForge

open Outcome

namespace Code.TypeState

variable {m : MethodHeader} {kind : CallKind} {method : MethodRef} {s r t : TypeState}

/-! ## Types -/

theorem length_dropKind {k : Kind} (h : s.dropKind k = .ok r) :
    s.stack.length = r.stack.length + 1 := by
  obtain ⟨v, rfl, -⟩ := dropKind_eq_ok.1 h
  rfl

theorem length_dropArguments {types : List JvmType} (h : s.dropArguments types = .ok r) :
    s.stack.length = r.stack.length + types.length := by
  induction types generalizing s with
  | nil =>
    cases h
    rfl
  | cons t rest ih =>
    unfold dropArguments at h
    split at h
    · cases h
    · obtain ⟨q, hq, hrest⟩ := bind_eq_ok.1 h
      rw [length_dropKind hq, ih hrest, List.length_cons]
      omega

theorem length_dropReceiver (h : s.dropReceiver m kind method = .ok r) :
    s.stack.length = r.stack.length + if kind = .static then 0 else 1 := by
  unfold dropReceiver at h
  split at h
  · cases h
    rfl
  · rename_i hkind
    obtain ⟨⟨v, q⟩, hpop, hrest⟩ := bind_eq_ok.1 h
    obtain ⟨rfl, -⟩ := popFitting_eq_ok.1 hpop
    rw [if_neg hkind]
    dsimp only at hrest
    split at hrest
    · -- a constructor: what is put in place of the receiver changes no height
      obtain ⟨new, -, hresult⟩ := bind_eq_ok.1 hrest
      cases hresult
      simp [replace]
    · cases hrest
      rfl

/-- **The height behind a call.** -/
theorem length_call (h : s.call m kind method = .ok t) :
    ∃ params result, JvmType.ofMethodDescriptor method.descriptor = .ok (params, result) ∧
      Run.State.operandCount kind params ≤ s.stack.length ∧
      s.stack.length + (if result = .void then 0 else 1) =
        t.stack.length + Run.State.operandCount kind params := by
  unfold TypeState.call at h
  split at h
  · cases h
  · rename_i params result hparse
    obtain ⟨q, hq, hrest⟩ := bind_eq_ok.1 h
    obtain ⟨r, hr, hresult⟩ := bind_eq_ok.1 hrest
    have hlength := length_dropArguments hq
    rw [length_dropReceiver hr, List.length_reverse] at hlength
    refine ⟨params, result, hparse, ?_⟩
    unfold Run.State.operandCount
    refine ⟨by omega, ?_⟩
    cases result with
    | void =>
      cases hresult
      rw [if_pos rfl]
      omega
    | primitive p =>
      have hpushed : t.stack.length = r.stack.length + 1 := by
        cases p <;> cases hresult <;> rfl
      rw [if_neg nofun]
      omega
    | object name | array element =>
      cases hresult
      rw [if_neg nofun, push, List.length_cons]
      omega

end Code.TypeState

/-! ## Typings -/

namespace Code.Context.Typing

variable {c : Context} {entry : TypeState} {known : Nat → TypeState} {i : Nat}

/-- **Where control passes on**, a typing says as many types as the instruction leaves. -/
theorem length_next (hk : c.Typing entry known) {op : Op Nat} (hop : c.ops[i]? = some op)
    (hu : op.isUnconditional = false) (hlt : i + 1 < c.ops.size) :
    ∃ after, (known i).step c.shape (c.offsetAt i) op = .ok after ∧
      (known (i + 1)).stack.length = after.stack.length := by
  obtain ⟨after, hafter, harrives⟩ := hk.step i op hop
  have hle := harrives (i + 1) after (.next hop hu) hlt
  exact ⟨after, hafter, hle.stack.length_eq.symm⟩

/-- **A call that a typing knows of** finds its operands. -/
theorem operands (hk : c.Typing entry known) {kind : CallKind} {method : MethodRef}
    (hop : c.ops[i]? = some (.invoke kind method)) :
    ∃ params result, JvmType.ofMethodDescriptor method.descriptor = .ok (params, result) ∧
      Run.State.operandCount kind params ≤ (known i).stack.length := by
  obtain ⟨after, hafter, -⟩ := hk.step i _ hop
  obtain ⟨params, result, hparse, hcount, -⟩ := TypeState.length_call hafter
  exact ⟨params, result, hparse, hcount⟩

end Code.Context.Typing

namespace Run

open Code (Op CallKind MethodRef MethodHeader TypeState Context)

variable {m : MethodHeader} {offset place : Nat} {locals : List Value} {op : Op Nat}
  {ops : List (Op Nat)} {t after : TypeState} {s s' : State} {c : Context} {entry : TypeState}
  {known : Nat → TypeState} {i : Nat}

/-! ## Types and terms -/

theorem length_stack_call {kind : CallKind} {method : MethodRef}
    (h : s.call kind method = some s') :
    ∃ params result, JvmType.ofMethodDescriptor method.descriptor = .ok (params, result) ∧
      s.stack.length + (if result = .void then 0 else 1) =
        s'.stack.length + State.operandCount kind params := by
  unfold State.call at h
  split at h
  · cases h
  · rename_i params result hparse
    dsimp only at h
    split at h
    · cases h
    · rename_i hcount
      cases h
      refine ⟨params, result, hparse, ?_⟩
      by_cases hvoid : result = .void
      · rw [if_pos hvoid, if_pos hvoid, List.length_drop]
        omega
      · rw [if_neg hvoid, if_neg hvoid, List.length_cons, List.length_drop]
        omega

/-- **An instruction leaves as many types as terms.** -/
theorem length_stack_step (hstep : t.step m offset op = .ok after)
    (hadvance : s.advance locals place op = some s') (h : t.stack.length = s.stack.length) :
    after.stack.length = s'.stack.length := by
  cases op with
  | null | int _ | string _ | new _ =>
    cases hstep
    cases hadvance
    simpa [TypeState.push, State.push] using h
  | load kind index =>
    have hload : kind = .reference := by cases kind <;> first | rfl | cases hadvance
    subst hload
    obtain ⟨v, -, rfl⟩ := Option.map_eq_some_iff.1 hadvance
    simp only [TypeState.step] at hstep
    split at hstep
    · cases hstep
    · split at hstep
      · cases hstep
        simpa [TypeState.push, State.push] using h
      · cases hstep
  | arrayLoad =>
    obtain ⟨q, hq, hrest⟩ := bind_eq_ok.1 hstep
    obtain ⟨⟨v, r⟩, hr, hrest'⟩ := bind_eq_ok.1 hrest
    obtain ⟨w, -, hresult⟩ := bind_eq_ok.1 hrest'
    cases hresult
    obtain ⟨rfl, -⟩ := TypeState.popFitting_eq_ok.1 hr
    rw [TypeState.length_dropKind hq] at h
    obtain ⟨_ | ⟨index, _ | ⟨array, rest⟩⟩, calls⟩ := s <;> cases hadvance
    simpa [TypeState.push] using h
  | dup =>
    obtain ⟨_ | ⟨v, rest⟩, calls⟩ := s <;> cases hadvance
    simp only [TypeState.step] at hstep
    split at hstep
    · cases hstep
    · split at hstep
      · cases hstep
      · cases hstep
        simpa [TypeState.push] using h
  | cast name =>
    obtain ⟨q, hq, hresult⟩ := bind_eq_ok.1 hstep
    cases hresult
    rw [TypeState.length_dropKind hq] at h
    obtain ⟨_ | ⟨v, rest⟩, calls⟩ := s <;> cases hadvance
    simpa [TypeState.push] using h
  | invoke kind method =>
    have hkind : kind ≠ .interface := by
      rintro rfl
      cases hadvance
    rw [State.advance_invoke hkind] at hadvance
    obtain ⟨params, result, hparse, -, htypes⟩ := TypeState.length_call hstep
    obtain ⟨params', result', hparse', hterms⟩ := length_stack_call hadvance
    cases hparse.symm.trans hparse'
    omega
  | _ => cases hadvance

/-- An instruction that passes control on. -/
theorem isUnconditional_of_advance (h : s.advance locals place op = some s') :
    op.isUnconditional = false := by
  cases op with
  | ret kind | throw | lookupSwitch fallback cases | jump kind target => cases h
  | _ => rfl

/-! ## Typings -/

/-- **The height of a run is that of the typing** where it comes to. -/
theorem height_of_steps (hk : c.Typing entry known)
    (hops : ∀ (k : Nat) (op : Op Nat), ops[k]? = some op → c.ops[i + k]? = some op)
    (hend : i + ops.length < c.ops.size) (h : Steps locals ops s s')
    (hheight : (known i).stack.length = s.stack.length) :
    (known (i + ops.length)).stack.length = s'.stack.length := by
  induction h generalizing i with
  | nil => exact hheight
  | @cons op ops s s' s'' hstep _ ih =>
    rw [List.length_cons] at hend ⊢
    have hop : c.ops[i]? = some op := hops 0 op rfl
    obtain ⟨after, hafter, hlength⟩ :=
      hk.length_next hop (isUnconditional_of_advance (hstep 0)) (by omega)
    have hnext := hlength.trans (length_stack_step hafter (hstep 0) hheight)
    rw [show i + (ops.length + 1) = i + 1 + ops.length by omega]
    refine ih (fun k op' hk' => ?_) (by omega) hnext
    rw [show i + 1 + k = i + (k + 1) by omega]
    exact hops (k + 1) op' hk'

end Run

end ProxyForge
