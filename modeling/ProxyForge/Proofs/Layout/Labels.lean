import ProxyForge.Code.Body
import ProxyForge.Proofs.Outcome
/-!
# Labels

A body whose labels are resolved has the instructions of its lines, in their order
(`Body.resolve_ops`), and every place that it names is that of an instruction
(`Body.target_lt_of_resolve`, `Body.handler_of_resolve`). What does not depend on places is the same
before and after (`Op.resolve_agrees`).
-/

namespace ProxyForge

namespace Code

open Outcome

variable {b : Body} {p : Program}

/-! ## One instruction -/

namespace Op

variable {L M ε : Type} {place : L → Except ε M} {op : Op L} {op' : Op M}

/-- The cases of a switch with their places looked up, in their order. -/
theorem resolve_cases {cases : List (Int32 × L)} {cases' : List (Int32 × M)}
    (h : (cases.mapM fun (key, target) => do return (key, ← place target)) = .ok cases') :
    List.Forall₂ (fun old new => old.1 = new.1 ∧ place old.2 = .ok new.2) cases cases' := by
  refine (mapM_eq_ok h).imp fun old new hcase => ?_
  obtain ⟨target, htarget, hresult⟩ := bind_eq_ok.1 hcase
  cases hresult
  exact ⟨rfl, htarget⟩

/-- **The places of a resolved instruction** are those of its labels. -/
theorem resolve_targets (h : op.resolve place = .ok op') :
    List.Forall₂ (fun label position => place label = .ok position) op.targets op'.targets := by
  cases op with
  | jump kind target =>
    obtain ⟨position, hplace, hresult⟩ := bind_eq_ok.1 h
    cases hresult
    exact .cons hplace .nil
  | lookupSwitch fallback cases =>
    obtain ⟨position, hplace, hrest⟩ := bind_eq_ok.1 h
    obtain ⟨cases', hcases, hresult⟩ := bind_eq_ok.1 hrest
    cases hresult
    refine .cons hplace ?_
    rw [List.forall₂_map_left_iff, List.forall₂_map_right_iff]
    exact (resolve_cases hcases).imp fun _ _ h => h.2
  | _ =>
    cases h
    exact .nil

/-- The instruction without the places that it names. -/
def bare : Op L → Op Unit
  | null => null
  | int value => int value
  | string value => string value
  | classOf name => classOf name
  | load kind index => load kind index
  | store kind index => store kind index
  | arrayLoad => arrayLoad
  | arrayStore => arrayStore
  | pop => pop
  | dup => dup
  | ret kind => ret kind
  | getStatic field => getStatic field
  | putStatic field => putStatic field
  | getField field => getField field
  | putField field => putField field
  | invoke kind method => invoke kind method
  | new name => new name
  | newArray element => newArray element
  | cast name => cast name
  | throw => throw
  | monitorEnter => monitorEnter
  | monitorExit => monitorExit
  | jump kind _ => jump kind ()
  | lookupSwitch _ cases => lookupSwitch () (cases.map fun (key, _) => (key, ()))

/-- **Looking places up changes nothing else**: not even the keys of a switch. -/
theorem bare_resolve (h : op.resolve place = .ok op') : op'.bare = op.bare := by
  cases op with
  | jump kind target =>
    obtain ⟨_, -, hresult⟩ := bind_eq_ok.1 h
    cases hresult
    rfl
  | lookupSwitch fallback cases =>
    obtain ⟨_, -, hrest⟩ := bind_eq_ok.1 h
    obtain ⟨cases', hcases, hresult⟩ := bind_eq_ok.1 hrest
    cases hresult
    have hkeys : cases'.map (fun (key, _) => (key, ())) =
        cases.map fun (key, _) => (key, ()) := by
      rw [← List.forall₂_eq_eq_eq, List.forall₂_map_left_iff, List.forall₂_map_right_iff]
      exact (resolve_cases hcases).flip.imp fun _ _ hcase => congrArg (·, ()) hcase.1.symm
    rw [bare, bare, hkeys]
  | _ =>
    cases h
    rfl

/-- So whatever does not depend on places is the same before and after. -/
theorem resolve_agrees {α : Type} {f : ∀ {L : Type}, Op L → α}
    (hf : ∀ {L : Type} (op : Op L), f op.bare = f op) (h : op.resolve place = .ok op') :
    f op' = f op :=
  (hf op').symm.trans ((congrArg f (bare_resolve h)).trans (hf op))

end Op

namespace Body

/-! ## All instructions -/

theorem jumpTarget_ok {bound : Std.HashMap Label Nat} {size index : Nat} {label : Label}
    {position : Nat} (h : jumpTarget bound size index label = .ok position) :
    bound[label]? = some position ∧ position < size := by
  unfold jumpTarget at h
  split at h
  · cases h
  · rename_i hbound
    split at h
    · rename_i hlt
      cases h
      exact ⟨hbound, hlt⟩
    · cases h

/-- **The instructions of a resolved body** are those of its lines with their labels looked up. -/
theorem resolve_ops (h : b.resolve = .ok p) : p.ops.size = b.ops.length ∧
    ∀ (i : Nat) (op' : Op Nat), p.ops[i]? = some op' → ∃ op, b.ops[i]? = some op ∧
      op.resolve (jumpTarget b.positions b.ops.length i) = .ok op' := by
  obtain ⟨ops, hops, hrest⟩ := bind_eq_ok.1 h
  obtain ⟨handlers, -, hresult⟩ := bind_eq_ok.1 hrest
  cases hresult
  have hall := mapM_eq_ok hops
  refine ⟨?_, fun i op' hi => ?_⟩
  · rw [List.size_toArray, ← hall.length_eq, List.length_zipIdx]
  · obtain ⟨⟨op, index⟩, hop, hresolve⟩ := getElem?_of_forall₂ hall (by simpa using hi)
    rw [List.getElem?_zipIdx] at hop
    obtain ⟨op₀, hop₀, heq⟩ := Option.map_eq_some_iff.1 hop
    cases heq
    rw [Nat.zero_add] at hresolve
    exact ⟨op, hop₀, hresolve⟩

/-- **A jump leads to an instruction.** -/
theorem target_lt_of_resolve (h : b.resolve = .ok p) {i : Nat} {op : Op Nat}
    (hop : p.ops[i]? = some op) {j : Nat} (hj : j ∈ op.targets) : j < p.ops.size := by
  obtain ⟨hsize, hops⟩ := resolve_ops h
  obtain ⟨op₀, -, hresolve⟩ := hops i op hop
  obtain ⟨k, hk⟩ := List.mem_iff_getElem?.1 hj
  obtain ⟨label, -, hplace⟩ := getElem?_of_forall₂ (Op.resolve_targets hresolve) hk
  rw [hsize]
  exact (jumpTarget_ok hplace).2

/-- A handler whose labels are resolved has the positions of its labels. -/
theorem resolveHandler_ok {bound : Std.HashMap Label Nat} {size : Nat} {h : Handler Label}
    {h' : Handler Nat} (hresolve : resolveHandler bound size h = .ok h') :
    bound[h.start]? = some h'.start ∧ bound[h.stop]? = some h'.stop ∧
      bound[h.handler]? = some h'.handler ∧ h'.caught = h.caught := by
  unfold resolveHandler at hresolve
  split at hresolve
  · rename_i hstart hstop hhandler
    split at hresolve
    · cases hresolve
    · cases hresolve
      exact ⟨hstart, hstop, hhandler, rfl⟩
  · cases hresolve

/-- The handlers of a resolved body, in their order. -/
theorem resolve_handlers (h : b.resolve = .ok p) :
    List.Forall₂ (fun r r' => resolveHandler b.positions b.ops.length r = .ok r')
      b.handlers p.handlers := by
  obtain ⟨ops, -, hrest⟩ := bind_eq_ok.1 h
  obtain ⟨handlers, hhandlers, hresult⟩ := bind_eq_ok.1 hrest
  cases hresult
  exact mapM_eq_ok hhandlers

/-- **A handler is an instruction** and covers at least one. -/
theorem handler_of_resolve (h : b.resolve = .ok p) {r : Handler Nat} (hr : r ∈ p.handlers) :
    r.start < r.stop ∧ r.handler < p.ops.size := by
  have hsize := (resolve_ops h).1
  obtain ⟨k, hk⟩ := List.mem_iff_getElem?.1 hr
  obtain ⟨r₀, -, hresolve⟩ := getElem?_of_forall₂ (resolve_handlers h) hk
  unfold resolveHandler at hresolve
  split at hresolve
  · split at hresolve
    · cases hresolve
    · rename_i hrange
      cases hresolve
      rw [hsize]
      exact ⟨Nat.lt_of_not_le fun h => hrange (.inl h), Nat.lt_of_not_le fun h => hrange (.inr h)⟩
  · cases hresolve

end Body

end Code

end ProxyForge
