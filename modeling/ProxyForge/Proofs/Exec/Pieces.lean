import ProxyForge.Proofs.Exec.Carries
import ProxyForge.Proxy.Boxing
/-!
# Pieces of straight code

What single instructions do to a state whose parts are known, and the piece of code that every
generated array comes from: it makes an array and puts one value after the other into it
(`exists_fill`).
-/

namespace ProxyForge

namespace Exec

open Code (CallKind FieldRef Kind MethodRef Op)

variable {w : World} {locals : Nat → Option Value} {stack vs monitors items : List Value}
  {things front : List Thing} {events : List Event} {v object : Value} {kind : Kind}
  {index : UInt16}

/-! ## Single instructions -/

theorem advance_load (hlocal : locals index.toNat = some v) (hkind : v.kind = kind) :
    (⟨locals, stack, things, monitors, events⟩ : State).advance w (.load kind index) =
      some ⟨locals, v :: stack, things, monitors, events⟩ := by
  simp only [State.advance, hlocal, if_pos hkind, State.push]

theorem advance_store (hkind : v.kind = kind) :
    (⟨locals, v :: stack, things, monitors, events⟩ : State).advance w (.store kind index) =
      some ⟨setLocal locals index.toNat v, stack, things, monitors, events⟩ := by
  simp only [State.advance, if_pos hkind]

theorem advance_dup (hv : v.kind = .reference) :
    (⟨locals, v :: stack, things, monitors, events⟩ : State).advance w .dup =
      some ⟨locals, v :: v :: stack, things, monitors, events⟩ := by
  simp only [State.advance, hv, Kind.slots, if_true, State.push]

theorem advance_pop (hv : v.kind = .reference) :
    (⟨locals, v :: stack, things, monitors, events⟩ : State).advance w .pop =
      some ⟨locals, stack, things, monitors, events⟩ := by
  simp only [State.advance, hv, Kind.slots, if_true]

/-- A field of an object holds what the world answers. -/
theorem advance_getField {f : FieldRef} (held : Value)
    (hheld : w.answer events (.held f v) = held) :
    (⟨locals, v :: stack, things, monitors, events⟩ : State).advance w (.getField f) =
      some ⟨locals, held :: stack, things, monitors, events ++ [.readField f v held]⟩ := by
  subst hheld
  rfl

/-- A static field holds what the world answers. -/
theorem advance_getStatic {f : FieldRef} (held : Value)
    (hheld : w.answer events (.static f) = held) :
    (⟨locals, stack, things, monitors, events⟩ : State).advance w (.getStatic f) =
      some ⟨locals, held :: stack, things, monitors, events ++ [.readStatic f held]⟩ := by
  subst hheld
  rfl

theorem advance_putField {f : FieldRef} :
    (⟨locals, v :: object :: stack, things, monitors, events⟩ : State).advance w (.putField f) =
      some ⟨locals, stack, things, monitors, events ++ [.wroteField f object v]⟩ := rfl

theorem advance_putStatic {f : FieldRef} :
    (⟨locals, v :: stack, things, monitors, events⟩ : State).advance w (.putStatic f) =
      some ⟨locals, stack, things, monitors, events ++ [.wroteStatic f v]⟩ := rfl

/-- A value that was put into the locals lies there. -/
theorem setLocal_self (locals : Nat → Option Value) (slot : Nat) (v : Value) :
    setLocal locals slot v slot = some v :=
  if_pos rfl

/-- Other slots are left alone. -/
theorem setLocal_of_ne {slot j : Nat} (hne : j ≠ slot) (hnext : j ≠ slot + 1)
    (hfront : j + 1 ≠ slot) : setLocal locals slot v j = locals j := by
  unfold setLocal
  rw [if_neg hne, if_neg fun h => hnext h.1, if_neg fun h => hfront h.1]

/-- A value of one slot in front stays. -/
theorem setLocal_front {slot : Nat} {u : Value} (hlocal : locals slot = some u)
    (hu : u.kind.slots = 1) : setLocal locals (slot + 1) v slot = some u := by
  have hnarrow : ¬(slot + 1 = slot + 1 ∧ (locals slot).any fun u => u.kind.slots = 2) := by
    rw [hlocal]
    simp [hu]
  unfold setLocal
  rw [if_neg (by omega), if_neg (by omega), if_neg hnarrow, hlocal]

/-! ## Calls -/

/-- What the world answers to a call. -/
def World.returns (w : World) (events : List Event) (c : Call) : Value :=
  w.answer events (.result c)

section calls

variable {call : CallKind} {m : MethodRef} {params : List JvmType} {result : JvmType}

theorem call_eq (vs : List Value)
    (hparse : JvmType.ofMethodDescriptor m.descriptor = .ok (params, result))
    (hlength : vs.length = Run.State.operandCount call params) :
    (⟨locals, vs.reverse ++ stack, things, monitors, events⟩ : State).call w call m =
      if result = .void then
        some ⟨locals, stack, things, monitors, events ++ [.called ⟨call, m, vs, things⟩ none]⟩
      else some ⟨locals, w.returns events ⟨call, m, vs, things⟩ :: stack, things, monitors,
        events ++
          [.called ⟨call, m, vs, things⟩ (some (w.returns events ⟨call, m, vs, things⟩))]⟩ := by
  have hcount : Run.State.operandCount call params = vs.reverse.length := by
    rw [List.length_reverse, hlength]
  unfold State.call
  rw [hparse]
  dsimp only
  rw [hcount, if_neg (by rw [List.length_append]; omega), List.take_left, List.drop_left,
    List.reverse_reverse]
  rfl

/-- **A call takes its operands**, the last of which lies on top, and leaves a result. -/
theorem advance_invoke (vs : List Value)
    (hparse : JvmType.ofMethodDescriptor m.descriptor = .ok (params, result))
    (hresult : result ≠ .void) (hlength : vs.length = Run.State.operandCount call params) :
    (⟨locals, vs.reverse ++ stack, things, monitors, events⟩ : State).advance w (.invoke call m) =
      some ⟨locals, w.returns events ⟨call, m, vs, things⟩ :: stack, things, monitors,
        events ++
          [.called ⟨call, m, vs, things⟩ (some (w.returns events ⟨call, m, vs, things⟩))]⟩ :=
  (call_eq vs hparse hlength).trans (if_neg hresult)

/-- A call without a result. -/
theorem advance_invoke_void (vs : List Value)
    (hparse : JvmType.ofMethodDescriptor m.descriptor = .ok (params, .void))
    (hlength : vs.length = Run.State.operandCount call params) :
    (⟨locals, vs.reverse ++ stack, things, monitors, events⟩ : State).advance w (.invoke call m) =
      some ⟨locals, stack, things, monitors, events ++ [.called ⟨call, m, vs, things⟩ none]⟩ :=
  (call_eq vs hparse hlength).trans (if_pos rfl)

/-- **The result of a call** is of the kind that its descriptor says. -/
theorem kind_returns (hparse : JvmType.ofMethodDescriptor m.descriptor = .ok (params, result))
    (hkind : Kind.ofType result = some kind) :
    (w.returns events ⟨call, m, vs, things⟩).kind = kind := by
  refine w.kind_answer events _ kind ?_
  rw [Query.kind, resultKind, hparse]
  exact hkind

/-- **A call leaves a result** of the kind that its descriptor says. -/
theorem exists_result (call : CallKind) (m : MethodRef) (locals : Nat → Option Value)
    (vs stack : List Value) (things : List Thing) (monitors : List Value) (events : List Event)
    (hparse : JvmType.ofMethodDescriptor m.descriptor = .ok (params, result))
    (hkind : Kind.ofType result = some kind)
    (hlength : vs.length = Run.State.operandCount call params) : ∃ v, v.kind = kind ∧
      (⟨locals, vs.reverse ++ stack, things, monitors, events⟩ : State).advance w
          (.invoke call m) =
        some ⟨locals, v :: stack, things, monitors,
          events ++ [.called ⟨call, m, vs, things⟩ (some v)]⟩ := by
  have hvalue : result ≠ .void := by
    rintro rfl
    cases hkind
  exact ⟨_, kind_returns hparse hkind, advance_invoke vs hparse hvalue hlength⟩

/-- A call leaves a result, unless it has none. -/
theorem exists_advance_invoke (call : CallKind) (m : MethodRef) (locals : Nat → Option Value)
    (vs stack : List Value) (things : List Thing) (monitors : List Value) (events : List Event)
    (hparse : JvmType.ofMethodDescriptor m.descriptor = .ok (params, result))
    (hlength : vs.length = Run.State.operandCount call params) :
    ∃ returned : Option Value, Kind.ofType result = returned.map Value.kind ∧
      (⟨locals, vs.reverse ++ stack, things, monitors, events⟩ : State).advance w
          (.invoke call m) =
        some ⟨locals, returned.toList ++ stack, things, monitors,
          events ++ [.called ⟨call, m, vs, things⟩ returned]⟩ := by
  cases hkind : Kind.ofType result with
  | none =>
    have hvoid : result = .void := by
      cases result with
      | void => rfl
      | primitive p => cases p <;> cases hkind
      | object name | array element => cases hkind
    subst hvoid
    exact ⟨none, rfl, advance_invoke_void vs hparse hlength⟩
  | some kind =>
    obtain ⟨v, hv, hcall⟩ :=
      exists_result (w := w) call m locals vs stack things monitors events hparse hkind hlength
    exact ⟨some v, congrArg some hv.symm, hcall⟩

end calls

/-! ## The stack -/

/-- **Instructions take values and leave values**, whatever lies below. -/
def Turns (w : World) (ops : List (Op Nat)) (taken left : Nat) : Prop :=
  ∀ s s' : State, runOps w ops s = some s' →
    ∃ vs, vs.length = left ∧ s'.stack = vs ++ s.stack.drop taken

namespace Turns

variable {ops ops' : List (Op Nat)} {op : Op Nat} {taken left taken' left' : Nat}

theorem single (h : ∀ s s' : State, s.advance w op = some s' →
    ∃ vs, vs.length = left ∧ s'.stack = vs ++ s.stack.drop taken) : Turns w [op] taken left := by
  intro s s' hrun
  obtain ⟨t, ht, hrest⟩ := Option.bind_eq_some_iff.1 hrun
  cases hrest
  exact h s s' ht

/-- What one piece leaves is there for the next. -/
theorem append (h : Turns w ops taken left) (h' : Turns w ops' taken' left')
    (henough : taken' ≤ left) : Turns w (ops ++ ops') taken (left' + (left - taken')) := by
  intro s s' hrun
  rw [runOps_append] at hrun
  obtain ⟨t, ht, hrest⟩ := Option.bind_eq_some_iff.1 hrun
  obtain ⟨vs, hlength, hstack⟩ := h s t ht
  obtain ⟨vs', hlength', hstack'⟩ := h' t s' hrest
  refine ⟨vs' ++ vs.drop taken', ?_, ?_⟩
  · rw [List.length_append, List.length_drop, hlength, hlength']
  · rw [hstack', hstack, List.drop_append_of_le_length (hlength ▸ henough), List.append_assoc]

/-- An instruction that pushes a value. -/
theorem push {f : State → State} (h : ∀ s : State, s.advance w op = some (f s))
    (hstack : ∀ s, ∃ v, (f s).stack = v :: s.stack) :
    Turns w [op] 0 1 := single fun s s' hadvance => by
  cases (h s).symm.trans hadvance
  obtain ⟨v, hv⟩ := hstack s
  exact ⟨[v], rfl, hv⟩

theorem load : Turns w [.load kind index] 0 1 := single fun s s' h => by
  simp only [State.advance] at h
  split at h
  · split at h <;> cases h
    exact ⟨[_], rfl, rfl⟩
  · cases h

theorem dup : Turns w [.dup] 1 2 := single fun s s' h => by
  simp only [State.advance] at h
  split at h
  · rename_i hstack
    split at h <;> cases h
    exact ⟨[_, _], rfl, by rw [State.push, hstack]; rfl⟩
  · cases h

theorem arrayStore : Turns w [.arrayStore] 3 0 := single fun s s' h => by
  simp only [State.advance] at h
  split at h
  · rename_i hstack
    obtain ⟨things, -, rfl⟩ := Option.map_eq_some_iff.1 h
    exact ⟨[], rfl, by rw [hstack]; rfl⟩
  · cases h

theorem newArray {element : String} : Turns w [.newArray element] 1 1 := single fun s s' h => by
  simp only [State.advance] at h
  split at h
  · rename_i hstack
    split at h <;> cases h
    exact ⟨[_], rfl, by rw [hstack]; rfl⟩
  · cases h

/-- A call takes its operands. -/
theorem invoke {call : CallKind} {m : MethodRef} {params : List JvmType} {result : JvmType}
    (hparse : JvmType.ofMethodDescriptor m.descriptor = .ok (params, result))
    (hresult : result ≠ .void) (hcount : Run.State.operandCount call params = taken) :
    Turns w [.invoke call m] taken 1 := single fun s s' h => by
  subst hcount
  simp only [State.advance, State.call, hparse, if_neg hresult] at h
  split at h
  · cases h
  · cases h
    exact ⟨[_], rfl, rfl⟩

/-- Pieces that leave as much as they take. -/
theorem flatMap {α : Type} {piece : α → List (Op Nat)} (xs : List α)
    (hpiece : ∀ x, Turns w (piece x) left left) (h : Turns w ops taken left) :
    Turns w (ops ++ xs.flatMap piece) taken left := by
  induction xs generalizing ops with
  | nil =>
    rw [List.flatMap_nil, List.append_nil]
    exact h
  | cons x xs ih =>
    rw [List.flatMap_cons, ← List.append_assoc]
    have hone := h.append (hpiece x) (Nat.le_refl left)
    rw [Nat.sub_self, Nat.add_zero] at hone
    exact ih hone

end Turns

/-! ## Arrays -/

/-- A small number as an index. -/
theorem index_ofNat {i : Nat} (h : i < 2 ^ 31) :
    0 ≤ Int32.ofNat i ∧ (Int32.ofNat i).toInt.toNat = i := by
  have hint : (Int32.ofNat i).toInt = i := Int32.toInt_ofNat_of_lt h
  refine ⟨?_, by rw [hint, Int.toNat_natCast]⟩
  rw [Int32.le_iff_toInt_le, hint]
  exact Int.natCast_nonneg i

theorem advance_newArray {element : String} {n : Nat} (h : n < 2 ^ 31) :
    (⟨locals, .int (Int32.ofNat n) :: stack, things, monitors, events⟩ : State).advance w
        (.newArray element) =
      some ⟨locals, .made things.length :: stack,
        things ++ [.array element (List.replicate n .null)], monitors, events⟩ := by
  obtain ⟨hnonneg, hindex⟩ := index_ofNat h
  simp only [State.advance, if_pos hnonneg, hindex]

theorem advance_arrayStore {element : String} {i : Nat} (h : i < 2 ^ 31) (hi : i < items.length) :
    (⟨locals, v :: .int (Int32.ofNat i) :: .made front.length :: stack,
        front ++ [.array element items], monitors, events⟩ : State).advance w .arrayStore =
      some ⟨locals, stack, front ++ [.array element (items.set i v)], monitors, events⟩ := by
  obtain ⟨hnonneg, hindex⟩ := index_ofNat h
  have hthing : (front ++ [Thing.array element items])[front.length]? =
      some (.array element items) := List.getElem?_concat_length
  have hset : (front ++ [Thing.array element items]).set front.length
      (.array element (items.set i v)) = front ++ [.array element (items.set i v)] := by
    rw [List.set_append_right _ _ (Nat.le_refl _), Nat.sub_self]
    rfl
  simp only [State.advance, State.setElement, hthing, hindex, if_pos (And.intro hnonneg hi), hset,
    Option.map_some]

theorem advance_arrayLoad {a i : Nat} {element : String} (h : i < 2 ^ 31)
    (hthing : things[a]? = some (.array element items)) (hitem : items[i]? = some v) :
    (⟨locals, .int (Int32.ofNat i) :: .made a :: stack, things, monitors, events⟩ : State).advance w
        .arrayLoad = some ⟨locals, v :: stack, things, monitors, events⟩ := by
  obtain ⟨hnonneg, hindex⟩ := index_ofNat h
  simp only [State.advance, State.element, hthing, if_pos hnonneg, hindex, hitem, Option.map_some]

/-- **What a value each for several things comes to**: the values in their order, and what was done
for them. -/
inductive Gathers {α : Type} (R : α → Value → List Event → Prop) :
    List α → List Value → List Event → Prop
  | nil : Gathers R [] [] []
  | cons {x : α} {v : Value} {xs : List α} {vs : List Value} {done more : List Event}
    (h : R x v done) (hrest : Gathers R xs vs more) : Gathers R (x :: xs) (v :: vs) (done ++ more)

namespace Gathers

variable {α β : Type} {R S : α → Value → List Event → Prop} {xs : List α} {done : List Event}

theorem map {f : β → α} {ys : List β} (h : Gathers (fun y => R (f y)) ys vs done) :
    Gathers R (ys.map f) vs done := by
  induction h with
  | nil => exact .nil
  | cons h _ ih => exact .cons h ih

end Gathers

/-- **Instructions that push one value**, and leave the rest of a state alone. -/
def Pushes (w : World) (locals : Nat → Option Value) (monitors : List Value) (ops : List (Op Nat))
    (R : Value → List Event → Prop) : Prop :=
  ∀ stack things events, ∃ v done, R v done ∧
    runOps w ops ⟨locals, stack, things, monitors, events⟩ =
      some ⟨locals, v :: stack, things, monitors, events ++ done⟩

/-- The rest of an array is filled. -/
theorem exists_fillFrom {α : Type} {R : α → Value → List Event → Prop} {piece : α → List (Op Nat)}
    {xs : List α} (hpiece : ∀ x ∈ xs, Pushes w locals monitors (piece x) (R x))
    (filled : List Value) (hsmall : filled.length + xs.length < 2 ^ 31) (element : String)
    (stack : List Value) (front : List Thing) (events : List Event) :
    ∃ vs done, Gathers R xs vs done ∧
      runOps w ((xs.zipIdx filled.length).flatMap fun (x, i) =>
          [.dup, Proxy.Boxing.count i] ++ piece x ++ [.arrayStore])
        ⟨locals, .made front.length :: stack,
          front ++ [.array element (filled ++ List.replicate xs.length .null)], monitors, events⟩ =
      some ⟨locals, .made front.length :: stack, front ++ [.array element (filled ++ vs)], monitors,
        events ++ done⟩ := by
  induction xs generalizing filled events with
  | nil => exact ⟨[], [], .nil, by simp [runOps]⟩
  | cons x xs ih =>
    rw [List.length_cons] at hsmall
    obtain ⟨v, done, hv, hrun⟩ := hpiece x List.mem_cons_self
      (.int (Int32.ofNat filled.length) :: .made front.length :: .made front.length :: stack)
      (front ++ [.array element (filled ++ List.replicate (xs.length + 1) .null)]) events
    obtain ⟨vs, more, hvs, hrest⟩ := ih (fun x' hx' => hpiece x' (List.mem_cons_of_mem x hx'))
      (filled ++ [v]) (by rw [List.length_append, List.length_singleton]; omega) (events ++ done)
    refine ⟨v :: vs, done ++ more, .cons hv hvs, ?_⟩
    rw [List.zipIdx_cons, List.flatMap_cons, List.length_cons]
    -- the next element is the first one that is still `null`
    have hset : (filled ++ List.replicate (xs.length + 1) Value.null).set filled.length v =
        filled ++ [v] ++ List.replicate xs.length .null := by
      rw [List.set_append_right _ _ (Nat.le_refl _), Nat.sub_self, List.replicate_succ,
        List.set_cons_zero, List.append_assoc, List.singleton_append]
    have hstore : (⟨locals, v :: .int (Int32.ofNat filled.length) :: .made front.length ::
          .made front.length :: stack,
        front ++ [.array element (filled ++ List.replicate (xs.length + 1) .null)], monitors,
        events ++ done⟩ : State).advance w .arrayStore = _ :=
      advance_arrayStore (by omega) (by rw [List.length_append, List.length_replicate]; omega)
    rw [hset] at hstore
    have hone : runOps w ([.dup, Proxy.Boxing.count filled.length] ++ piece x ++ [.arrayStore])
        ⟨locals, .made front.length :: stack,
          front ++ [.array element (filled ++ List.replicate (xs.length + 1) .null)], monitors,
          events⟩ = some ⟨locals, .made front.length :: stack,
          front ++ [.array element (filled ++ [v] ++ List.replicate xs.length .null)], monitors,
          events ++ done⟩ :=
      runOps_of_append (runOps_of_append (runOps_of_cons (advance_dup rfl)
        (runOps_of_cons rfl rfl)) hrun) (runOps_of_cons hstore rfl)
    rw [List.length_append, List.length_singleton] at hrest
    rw [List.append_cons filled v vs, ← List.append_assoc events]
    exact runOps_of_append hone hrest

/-- **An array is made and filled**, with one value each for several things. -/
theorem exists_fill {α : Type} {R : α → Value → List Event → Prop} {piece : α → List (Op Nat)}
    {xs : List α} (hpiece : ∀ x ∈ xs, Pushes w locals monitors (piece x) (R x))
    (hsmall : xs.length < 2 ^ 31) (element : String) (stack : List Value) (things : List Thing)
    (events : List Event) : ∃ vs done, Gathers R xs vs done ∧
      runOps w (Proxy.Boxing.count xs.length :: .newArray element :: xs.zipIdx.flatMap fun (x, i) =>
          [.dup, Proxy.Boxing.count i] ++ piece x ++ [.arrayStore])
        ⟨locals, stack, things, monitors, events⟩ =
      some ⟨locals, .made things.length :: stack, things ++ [.array element vs], monitors,
        events ++ done⟩ := by
  obtain ⟨vs, done, hvs, hrun⟩ :=
    exists_fillFrom hpiece [] (by simpa using hsmall) element stack things events
  exact ⟨vs, done, hvs, runOps_of_cons rfl (runOps_of_cons (advance_newArray hsmall) hrun)⟩

end Exec

end ProxyForge
