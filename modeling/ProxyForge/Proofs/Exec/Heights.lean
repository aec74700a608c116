import ProxyForge.Proofs.Exec.Carries
import ProxyForge.Proofs.Run.Heights
/-!
# The height of the stack in a run

Types and values are two views of one stack: where an instruction has an effect on both, it leaves
as many types as values (`length_stack_advance`). So the height that a typing says at a position is
that of a run which came there (`height_of_runOps`), whatever the values are.
-/

namespace ProxyForge

namespace Exec

open Outcome
open Code (CallKind Context MethodHeader MethodRef Op TypeState)

variable {w : World} {m : MethodHeader} {offset : Nat} {op : Op Nat} {ops : List (Op Nat)}
  {t after : TypeState} {s s' : State} {c : Context} {entry : TypeState} {known : Nat → TypeState}
  {i : Nat}

theorem length_pop {v : Code.SlotType} {q : TypeState} (h : t.pop = .ok (v, q)) :
    t.stack.length = q.stack.length + 1 := by
  unfold TypeState.pop at h
  split at h
  · cases h
  · rename_i heq
    cases h
    rw [heq, List.length_cons]

theorem length_stack_call {kind : CallKind} {method : MethodRef}
    (h : s.call w kind method = some s') :
    ∃ params result, JvmType.ofMethodDescriptor method.descriptor = .ok (params, result) ∧
      s.stack.length + (if result = .void then 0 else 1) =
        s'.stack.length + Run.State.operandCount kind params := by
  unfold State.call at h
  split at h
  · cases h
  · rename_i params result hparse
    dsimp only at h
    split at h
    · cases h
    · rename_i hcount
      refine ⟨params, result, hparse, ?_⟩
      split at h
      · rename_i hvoid
        cases h
        rw [if_pos hvoid, State.record, List.length_drop]
        omega
      · rename_i hvoid
        cases h
        rw [if_neg hvoid, State.record, State.push, List.length_cons, List.length_drop]
        omega

/-- **An instruction leaves as many types as values.** -/
theorem length_stack_advance (hstep : t.step m offset op = .ok after)
    (hadvance : s.advance w op = some s') (h : t.stack.length = s.stack.length) :
    after.stack.length = s'.stack.length := by
  obtain ⟨locals, stack, things, monitors, events⟩ := s
  cases op with
  | null | int _ | string _ | classOf _ | new _ =>
    cases hstep
    cases hadvance
    simpa [TypeState.push, State.push] using h
  | invoke kind method =>
    obtain ⟨params, result, hparse, -, htypes⟩ := TypeState.length_call hstep
    obtain ⟨params', result', hparse', hvalues⟩ := length_stack_call hadvance
    cases hparse.symm.trans hparse'
    omega
  | getStatic f =>
    obtain ⟨v, -, hresult⟩ := bind_eq_ok.1 hstep
    cases hresult
    cases hadvance
    simpa [TypeState.push, State.push, State.record] using h
  | putStatic f =>
    obtain ⟨⟨v, q⟩, hq, hresult⟩ := bind_eq_ok.1 hstep
    cases hresult
    rw [length_pop hq] at h
    obtain _ | ⟨u, rest⟩ := stack <;> cases hadvance
    simpa [State.record] using h
  | pop =>
    obtain ⟨⟨v, q⟩, hq, hresult⟩ := bind_eq_ok.1 hstep
    rw [length_pop hq] at h
    obtain _ | ⟨u, rest⟩ := stack
    · cases hadvance
    · simp only [State.advance] at hadvance
      dsimp only at hresult
      split at hresult
      · cases hresult
      · split at hadvance
        · cases hresult
          cases hadvance
          simpa using h
        · cases hadvance
  | dup =>
    simp only [TypeState.step] at hstep
    split at hstep
    · cases hstep
    · obtain _ | ⟨u, rest⟩ := stack
      · cases hadvance
      · simp only [State.advance] at hadvance
        split at hstep
        · cases hstep
        · split at hadvance
          · cases hstep
            cases hadvance
            simpa [TypeState.push, State.push] using h
          · cases hadvance
  | load kind index =>
    simp only [TypeState.step] at hstep
    simp only [State.advance] at hadvance
    split at hstep
    · cases hstep
    · split at hadvance
      · split at hstep
        · split at hadvance
          · cases hstep
            cases hadvance
            simpa [TypeState.push, State.push] using h
          · cases hadvance
        · cases hstep
      · cases hadvance
  | store kind index =>
    obtain ⟨⟨v, q⟩, hq, hresult⟩ := bind_eq_ok.1 hstep
    obtain ⟨rfl, -⟩ := TypeState.popFitting_eq_ok.1 hq
    cases hresult
    obtain _ | ⟨u, rest⟩ := stack
    · cases hadvance
    · simp only [State.advance] at hadvance
      split at hadvance
      · cases hadvance
        simpa using h
      · cases hadvance
  | getField f =>
    obtain ⟨q, hq, hrest⟩ := bind_eq_ok.1 hstep
    obtain ⟨v, -, hresult⟩ := bind_eq_ok.1 hrest
    cases hresult
    rw [TypeState.length_dropKind hq] at h
    obtain _ | ⟨u, rest⟩ := stack <;> cases hadvance
    simpa [TypeState.push, State.record] using h
  | putField f =>
    obtain ⟨⟨v, q⟩, hq, hrest⟩ := bind_eq_ok.1 hstep
    rw [length_pop hq, TypeState.length_dropKind hrest] at h
    obtain _ | ⟨u, _ | ⟨object, rest⟩⟩ := stack <;> cases hadvance
    simpa [State.record] using h
  | newArray element =>
    obtain ⟨q, hq, hresult⟩ := bind_eq_ok.1 hstep
    cases hresult
    rw [TypeState.length_dropKind hq] at h
    obtain _ | ⟨u, rest⟩ := stack
    · cases hadvance
    · simp only [State.advance] at hadvance
      split at hadvance
      · rename_i heq
        obtain ⟨rfl, rfl⟩ := List.cons.inj heq
        split at hadvance
        · cases hadvance
          simpa [TypeState.push] using h
        · cases hadvance
      · cases hadvance
  | cast name =>
    obtain ⟨q, hq, hresult⟩ := bind_eq_ok.1 hstep
    cases hresult
    rw [TypeState.length_dropKind hq] at h
    obtain _ | ⟨u, rest⟩ := stack <;> cases hadvance
    simpa [TypeState.push, State.record] using h
  | monitorEnter | monitorExit =>
    rw [TypeState.length_dropKind hstep] at h
    obtain _ | ⟨u, rest⟩ := stack <;> cases hadvance
    simpa [State.record] using h
  | arrayLoad =>
    obtain ⟨q, hq, hrest⟩ := bind_eq_ok.1 hstep
    obtain ⟨⟨v, r⟩, hr, hrest'⟩ := bind_eq_ok.1 hrest
    obtain ⟨u, -, hresult⟩ := bind_eq_ok.1 hrest'
    cases hresult
    obtain ⟨rfl, -⟩ := TypeState.popFitting_eq_ok.1 hr
    rw [TypeState.length_dropKind hq] at h
    simp only [State.advance] at hadvance
    split at hadvance
    · obtain ⟨u', -, rfl⟩ := Option.map_eq_some_iff.1 hadvance
      simpa [TypeState.push] using h
    · cases hadvance
  | arrayStore =>
    obtain ⟨q, hq, hrest⟩ := bind_eq_ok.1 hstep
    obtain ⟨r, hr, hrest'⟩ := bind_eq_ok.1 hrest
    rw [TypeState.length_dropKind hq, TypeState.length_dropKind hr,
      TypeState.length_dropKind hrest'] at h
    simp only [State.advance] at hadvance
    split at hadvance
    · obtain ⟨things', -, rfl⟩ := Option.map_eq_some_iff.1 hadvance
      simpa using h
    · cases hadvance
  | ret _ | throw | jump _ _ | lookupSwitch _ _ => cases hadvance

/-- An instruction that passes control on. -/
theorem isUnconditional_of_advance (h : s.advance w op = some s') : op.isUnconditional = false := by
  cases op with
  | ret _ | throw | jump _ _ | lookupSwitch _ _ => cases h
  | _ => rfl

/-- **The height of a run is that of the typing** where it comes to. -/
theorem height_of_runOps (hk : c.Typing entry known)
    (hops : ∀ (k : Nat) (op : Op Nat), ops[k]? = some op → c.ops[i + k]? = some op)
    (hend : i + ops.length < c.ops.size) (h : runOps w ops s = some s')
    (hheight : (known i).stack.length = s.stack.length) :
    (known (i + ops.length)).stack.length = s'.stack.length := by
  induction ops generalizing i s with
  | nil =>
    cases h
    exact hheight
  | cons op ops ih =>
    rw [List.length_cons] at hend ⊢
    obtain ⟨t, ht, hrest⟩ := Option.bind_eq_some_iff.1 h
    have hop : c.ops[i]? = some op := hops 0 op rfl
    obtain ⟨after, hafter, hlength⟩ :=
      hk.length_next hop (isUnconditional_of_advance ht) (by omega)
    have hnext := hlength.trans (length_stack_advance hafter ht hheight)
    rw [show i + (ops.length + 1) = i + 1 + ops.length by omega]
    refine ih (fun k op' hk' => ?_) (by omega) hrest hnext
    rw [show i + 1 + k = i + (k + 1) by omega]
    exact hops (k + 1) op' hk'

end Exec

end ProxyForge
