import ProxyForge.Proofs.Draft.Acceptance
import ProxyForge.Proofs.Growth
/-!
# Room in a pool

A computation that is `Interner.Within n P` takes `n` new indexes at most, and only texts with `P`
are new. Where so many indexes are left, it cannot fail but for a defect of code; so a computation
that finds no defect succeeds there (`Interner.Within.exists_ok`).
-/

namespace ProxyForge

open Outcome

/-- **The texts of a pool** are of one kind. -/
def Pool.TextsIn (P : String → Prop) (p : Pool) : Prop :=
  ∀ text, some (.utf8 text) ∈ p.entries → P text

theorem PoolBuilder.textsIn_empty (P : String → Prop) : empty.pool.TextsIn P := by
  intro text htext
  simp [empty] at htext

namespace Interner

variable {α β : Type} {P : String → Prop} {m : Interner α} {n k : Nat} {b : PoolBuilder}

/-- **A computation stays within `n` new indexes** where there is room for them: it fails only for
a defect, and only texts with `P` are new. -/
structure Within (n : Nat) (P : String → Prop) (m : Interner α) : Prop where
  defect : ∀ {b b' : PoolBuilder} {e : EmissionError}, b.count + n ≤ PoolBuilder.limit →
    m b = .error e b' → e.isDefect
  count : ∀ {b b' : PoolBuilder} {a : α}, b.count + n ≤ PoolBuilder.limit → m b = .ok a b' →
    b'.count ≤ b.count + n
  texts : ∀ {b b' : PoolBuilder} {a : α}, b.count + n ≤ PoolBuilder.limit → m b = .ok a b' →
    b.pool.TextsIn P → b'.pool.TextsIn P

namespace Within

/-- **Where there is room, a computation succeeds** that finds no defect. -/
theorem exists_ok (h : Within n P m) (hm : Faultless m) (hroom : b.count + n ≤ PoolBuilder.limit)
    (ht : b.pool.TextsIn P) : ∃ a b', m b = .ok a b' ∧ b'.pool.TextsIn P := by
  cases hrun : m b with
  | ok a b' => exact ⟨a, b', rfl, h.texts hroom hrun ht⟩
  | error e b' =>
    have hdefect := h.defect hroom hrun
    rw [hm b e b' hrun] at hdefect
    cases hdefect

theorem mono (h : Within n P m) (hle : n ≤ k) : Within k P m where
  defect hroom := h.defect (by omega)
  count hroom hrun := (h.count (by omega) hrun).trans (by omega)
  texts hroom := h.texts (by omega)

/-- No pool has room for more than there may be. -/
theorem of_le (h : n ≤ PoolBuilder.limit → Within n P m) : Within n P m where
  defect hroom := (h (by omega)).defect hroom
  count hroom := (h (by omega)).count hroom
  texts hroom := (h (by omega)).texts hroom

theorem pure (a : α) : Within 0 P (Pure.pure a : Interner α) where
  defect _ h := by cases h
  count _ h := by
    cases h
    exact Nat.le_refl _
  texts _ h ht := by
    cases h
    exact ht

/-- The second step may count on what the first one gave. -/
theorem bind_of {f : α → Interner β} (hm : Within n P m)
    (hf : ∀ (b b' : PoolBuilder) (a : α), m b = .ok a b' → Within k P (f a)) :
    Within (n + k) P (m >>= f) where
  defect {b _ _} hroom h := by
    cases hrun : m b with
    | ok a b₁ =>
      have hcount := hm.count (by omega) hrun
      rw [bind_run_eq hrun] at h
      exact (hf b b₁ a hrun).defect (by omega) h
    | error e₁ b₁ =>
      rw [bind_run_error hrun] at h
      cases h
      exact hm.defect (by omega) hrun
  count hroom h := by
    obtain ⟨a, b₁, hrun, hrest⟩ := bind_run_ok.1 h
    have hcount := hm.count (by omega) hrun
    have hmore := (hf _ b₁ a hrun).count (by omega) hrest
    omega
  texts hroom h ht := by
    obtain ⟨a, b₁, hrun, hrest⟩ := bind_run_ok.1 h
    have hcount := hm.count (by omega) hrun
    exact (hf _ b₁ a hrun).texts (by omega) hrest (hm.texts (by omega) hrun ht)

theorem bind {f : α → Interner β} (hm : Within n P m) (hf : ∀ a, Within k P (f a)) :
    Within (n + k) P (m >>= f) :=
  hm.bind_of fun _ _ a _ => hf a

/-- A computation that fails for a defect is within any bound. -/
theorem fail {e : EmissionError} (h : e.isDefect) : Within n P (Interner.fail e : Interner α) where
  defect _ hrun := by
    cases hrun
    exact h
  count _ hrun := by cases hrun
  texts _ hrun := by cases hrun

/-- What needs no constants may fail for a defect. -/
theorem lift {x : Except EmissionError α} (h : ∀ e, x = .error e → e.isDefect) :
    Within 0 P (Interner.lift x) := by
  cases x with
  | ok a => exact pure a
  | error e => exact fail (h e rfl)

/-- As many indexes as are counted are more than enough to count. -/
theorem count16 (what : Counted) (count : Nat) : Within count P (Interner.count16 what count) :=
  of_le fun hle => by
    unfold Interner.count16
    rw [if_pos (show count ≤ 65535 from hle)]
    exact (pure _).mono (Nat.zero_le _)

theorem get : Within 0 P (MonadState.get : Interner PoolBuilder) where
  defect _ h := by cases h
  count _ h := by
    cases h
    exact Nat.le_refl _
  texts _ h ht := by
    cases h
    exact ht

theorem mapM {f : α → Interner β} {xs : List α} (hf : ∀ x ∈ xs, Within n P (f x)) :
    Within (n * xs.length) P (xs.mapM f) := by
  induction xs with
  | nil => exact pure []
  | cons x xs ih =>
    rw [List.mapM_cons]
    refine ((hf x List.mem_cons_self).bind fun _ =>
      (ih fun y hy => hf y (List.mem_cons_of_mem x hy)).bind fun _ => pure _).mono ?_
    rw [List.length_cons, Nat.mul_succ]
    omega

/-- Steps in a row that keep a property of what they work on. -/
theorem foldlM {f : β → α → Interner β} {cost : α → Nat} {Q : β → Prop} {xs : List α}
    (hf : ∀ x ∈ xs, ∀ y, Q y → Within (cost x) P (f y x))
    (hkeep : ∀ x y b y' b', Q y → f y x b = .ok y' b' → Q y') {y : β} (hy : Q y) :
    Within (xs.map cost).sum P (xs.foldlM f y) := by
  induction xs generalizing y with
  | nil => exact pure y
  | cons x xs ih =>
    rw [List.foldlM_cons, List.map_cons, List.sum_cons]
    exact (hf x List.mem_cons_self y hy).bind_of fun b b' y' hrun =>
      ih (fun x' hx' => hf x' (List.mem_cons_of_mem x hx')) (hkeep x y b y' b' hy hrun)

/-! ## Constants -/

theorem constant {c : Constant} (hwidth : c.width ≤ n) (htext : ∀ text, c = .utf8 text → P text) :
    Within n P (Interner.constant c) where
  defect hroom h := by
    obtain ⟨-, -, hfull, -⟩ := constant_eq_error.1 h
    omega
  count {b _ _} _ h := by
    unfold Interner.constant at h
    split at h
    · cases h
      omega
    · dsimp only at h
      split at h
      · cases h
        change (Pool.push b.pool.entries c).size ≤ b.pool.entries.size + n
        rw [Pool.size_push]
        exact Nat.add_le_add_left hwidth _
      · cases h
  texts _ h ht := by
    intro text hmem
    obtain ⟨j, hget⟩ := PoolBuilder.exists_get hmem
    rcases get_of_constant h hget with hbefore | ⟨-, heq⟩
    · exact ht text (Array.mem_of_getElem? (Pool.get_eq_ok.1 hbefore))
    · exact htext text heq.symm

theorem utf8 {text : String} (h : P text) : Within 1 P (Interner.utf8 text) :=
  constant (Nat.le_refl 1) fun _ heq => by
    cases heq
    exact h

/-- A constant that is no text. -/
theorem named (c : Constant) (hwidth : c.width = 1) (htext : ∀ text, c ≠ .utf8 text) :
    Within 1 P (Interner.constant c) :=
  constant hwidth.le fun text heq => absurd heq (htext text)

theorem classRef {name : String} (h : P name) : Within 2 P (Interner.classRef name) :=
  (utf8 h).bind fun i => named (.classRef i) rfl fun _ => Constant.noConfusion

theorem string {text : String} (h : P text) : Within 2 P (Interner.string text) :=
  (utf8 h).bind fun i => named (.string i) rfl fun _ => Constant.noConfusion

theorem nameAndType {name descriptor : String} (hname : P name) (hdescriptor : P descriptor) :
    Within 3 P (Interner.nameAndType name descriptor) :=
  (utf8 hname).bind fun i => (utf8 hdescriptor).bind fun j =>
    named (.nameAndType i j) rfl fun _ => Constant.noConfusion

theorem fieldRef {owner name descriptor : String} (howner : P owner) (hname : P name)
    (hdescriptor : P descriptor) : Within 6 P (Interner.fieldRef owner name descriptor) :=
  (classRef howner).bind fun i => (nameAndType hname hdescriptor).bind fun j =>
    named (.fieldRef i j) rfl fun _ => Constant.noConfusion

theorem methodRef {owner name descriptor : String} (howner : P owner) (hname : P name)
    (hdescriptor : P descriptor) (inInterface : Bool) :
    Within 6 P (Interner.methodRef owner name descriptor inInterface) :=
  (classRef howner).bind fun i => (nameAndType hname hdescriptor).bind fun j =>
    named (if inInterface then .interfaceMethodRef i j else .methodRef i j)
      (by cases inInterface <;> rfl) fun _ => by cases inInterface <;> exact Constant.noConfusion

end Within

end Interner

end ProxyForge
