import Mathlib.Data.List.Forall2
import ProxyForge.Code.PoolBuilder
import ProxyForge.Proofs.Outcome
/-!
# Interning constants

An index that was given stays right: pools only grow (`PoolBuilder.Grows`), and every look-up that
succeeded succeeds in the grown pool. `Interner.constant_ok` and the lemmas behind it say what
stands at the index of each kind of constant. A computation that only asks for indexes fails
only when the pool is full (`Interner.OnlyFull`).
-/

namespace ProxyForge

open Outcome

variable {b b' b'' : PoolBuilder} {i : UInt16}

/-! ## Look-ups -/

theorem Pool.get_eq_ok {p : Pool} {c : Constant} :
    p.get i = .ok c ↔ p.entries[i.toNat]? = some (some c) := by
  unfold Pool.get
  split
  · rename_i h
    simp [h]
  · rename_i hne
    simp only [reduceCtorEq, false_iff]
    exact fun h => hne c h

namespace PoolBuilder

/-- Every constant of the pool has an index. -/
theorem exists_get {c : Constant} (h : some c ∈ b.pool.entries) : ∃ i, b.pool.get i = .ok c := by
  obtain ⟨k, hk⟩ := Array.mem_iff_getElem?.1 h
  have hlt : k < 65536 := Nat.lt_of_lt_of_le (Array.getElem?_eq_some_iff.1 hk).1
    (Nat.le_succ_of_le b.size_le)
  refine ⟨UInt16.ofNat k, ?_⟩
  rw [Pool.get_eq_ok, UInt16.toNat_ofNat', Nat.mod_eq_of_lt hlt]
  exact hk

/-- **Pools only grow**: what stands in the first one stands in the second one at its place. -/
def Grows (b b' : PoolBuilder) : Prop :=
  ∀ (i : UInt16) (c : Constant), b.pool.get i = .ok c → b'.pool.get i = .ok c

namespace Grows

theorem refl (b : PoolBuilder) : b.Grows b :=
  fun _ _ h => h

theorem trans (h : b.Grows b') (h' : b'.Grows b'') : b.Grows b'' :=
  fun i c hc => h' i c (h i c hc)

theorem utf8 (h : b.Grows b') {text : String} (ht : b.pool.utf8 i = .ok text) :
    b'.pool.utf8 i = .ok text := by
  obtain ⟨c, hc, hresult⟩ := bind_eq_ok.1 ht
  exact bind_eq_ok.2 ⟨c, h i c hc, hresult⟩

theorem className (h : b.Grows b') {name : String} (hn : b.pool.className i = .ok name) :
    b'.pool.className i = .ok name := by
  obtain ⟨c, hc, hresult⟩ := bind_eq_ok.1 hn
  refine bind_eq_ok.2 ⟨c, h i c hc, ?_⟩
  cases c with
  | classRef index => exact h.utf8 hresult
  | _ => cases hresult

theorem nameAndType (h : b.Grows b') {names : String × String}
    (hn : b.pool.nameAndType i = .ok names) : b'.pool.nameAndType i = .ok names := by
  obtain ⟨c, hc, hresult⟩ := bind_eq_ok.1 hn
  refine bind_eq_ok.2 ⟨c, h i c hc, ?_⟩
  cases c with
  | nameAndType name descriptor =>
    obtain ⟨name', hname, hrest⟩ := bind_eq_ok.1 hresult
    obtain ⟨descriptor', hdescriptor, hlast⟩ := bind_eq_ok.1 hrest
    exact bind_eq_ok.2 ⟨name', h.utf8 hname, bind_eq_ok.2 ⟨descriptor', h.utf8 hdescriptor, hlast⟩⟩
  | _ => cases hresult

theorem resolve (h : b.Grows b') {owner member : UInt16} {inInterface : Bool} {ref : MemberRef}
    (hr : b.pool.resolve owner member inInterface = .ok ref) :
    b'.pool.resolve owner member inInterface = .ok ref := by
  obtain ⟨names, hnames, hrest⟩ := bind_eq_ok.1 hr
  obtain ⟨ownerName, howner, hresult⟩ := bind_eq_ok.1 hrest
  exact bind_eq_ok.2 ⟨names, h.nameAndType hnames,
    bind_eq_ok.2 ⟨ownerName, h.className howner, hresult⟩⟩

end Grows

/-- A new constant stands behind the others. -/
theorem grows_push (c : Constant) (hnew : b.index[c]? = none)
    (hfits : b.count + c.width ≤ limit) : b.Grows (b.push c hnew hfits) := by
  intro i c' hc
  rw [Pool.get_eq_ok] at hc ⊢
  have hlt : i.toNat < b.pool.entries.size := (Array.getElem?_eq_some_iff.1 hc).1
  change (Pool.push b.pool.entries c)[i.toNat]? = _
  rw [Pool.getElem?_push, if_neg (Nat.ne_of_lt hlt), if_neg (fun h => by omega), hc]

end PoolBuilder

namespace Interner

variable {α β : Type}

/-! ## What interning gives -/

/-- **The index of a constant** is one at which it stands. -/
theorem constant_ok {c : Constant} (h : constant c b = .ok i b') :
    b.Grows b' ∧ b'.pool.get i = .ok c := by
  unfold constant at h
  split at h
  · -- the constant is there already and keeps its index
    rename_i hindex
    cases h
    exact ⟨.refl b, Pool.get_eq_ok.2 ((b.index_iff c _).1 hindex)⟩
  · rename_i hnew
    dsimp only at h
    split at h
    · rename_i hfits
      cases h
      -- it is new: the builder knows where it put it
      refine ⟨PoolBuilder.grows_push c hnew hfits, Pool.get_eq_ok.2 ?_⟩
      refine ((b.push c hnew hfits).index_iff c _).1 ?_
      exact Std.HashMap.getElem?_insert_self
    · cases h

/-- What stands in the pool behind a constant that was asked for. -/
theorem get_of_constant {c c' : Constant} {j : UInt16} (h : constant c b = .ok i b')
    (hget : b'.pool.get j = .ok c') :
    b.pool.get j = .ok c' ∨ j = i ∧ c' = c := by
  unfold constant at h
  split at h
  · cases h
    exact .inl hget
  · dsimp only at h
    split at h
    · cases h
      rw [Pool.get_eq_ok] at hget ⊢
      have hpush : (Pool.push b.pool.entries c)[j.toNat]? = some (some c') := hget
      rw [Pool.getElem?_push] at hpush
      split at hpush
      · rename_i hend
        refine .inr ⟨?_, (Option.some.inj (Option.some.inj hpush)).symm⟩
        rw [PoolBuilder.count, Pool.count, ← hend, UInt16.ofNat_toNat]
      · split at hpush
        · cases hpush
        · exact .inl hpush
    · cases h

theorem utf8_ok {text : String} (h : utf8 text b = .ok i b') :
    b.Grows b' ∧ b'.pool.utf8 i = .ok text := by
  obtain ⟨hgrows, hget⟩ := constant_ok h
  exact ⟨hgrows, bind_eq_ok.2 ⟨_, hget, rfl⟩⟩

theorem integer_ok {value : Int32} (h : integer value b = .ok i b') :
    b.Grows b' ∧ b'.pool.get i = .ok (.integer value) :=
  constant_ok h

theorem classRef_ok {name : String} (h : classRef name b = .ok i b') :
    b.Grows b' ∧ b'.pool.className i = .ok name := by
  obtain ⟨text, b₁, htext, hclass⟩ := bind_run_ok.1 h
  obtain ⟨hgrows₁, hutf8⟩ := utf8_ok htext
  obtain ⟨hgrows, hget⟩ := constant_ok hclass
  exact ⟨hgrows₁.trans hgrows, bind_eq_ok.2 ⟨_, hget, hgrows.utf8 hutf8⟩⟩

theorem string_ok {text : String} (h : string text b = .ok i b') :
    b.Grows b' ∧ ∃ index, b'.pool.get i = .ok (.string index) ∧ b'.pool.utf8 index = .ok text := by
  obtain ⟨index, b₁, htext, hstring⟩ := bind_run_ok.1 h
  obtain ⟨hgrows₁, hutf8⟩ := utf8_ok htext
  obtain ⟨hgrows, hget⟩ := constant_ok hstring
  exact ⟨hgrows₁.trans hgrows, index, hget, hgrows.utf8 hutf8⟩

theorem nameAndType_ok {name descriptor : String} (h : nameAndType name descriptor b = .ok i b') :
    b.Grows b' ∧ b'.pool.nameAndType i = .ok (name, descriptor) := by
  obtain ⟨nameIndex, b₁, hname, hrest⟩ := bind_run_ok.1 h
  obtain ⟨descriptorIndex, b₂, hdescriptor, hlast⟩ := bind_run_ok.1 hrest
  obtain ⟨hgrows₁, hutf8⟩ := utf8_ok hname
  obtain ⟨hgrows₂, hutf8'⟩ := utf8_ok hdescriptor
  obtain ⟨hgrows, hget⟩ := constant_ok hlast
  refine ⟨hgrows₁.trans (hgrows₂.trans hgrows), bind_eq_ok.2 ⟨_, hget, ?_⟩⟩
  exact bind_eq_ok.2 ⟨name, (hgrows₂.trans hgrows).utf8 hutf8,
    bind_eq_ok.2 ⟨descriptor, hgrows.utf8 hutf8', rfl⟩⟩

theorem resolve_eq_ok {p : Pool} {owner member : UInt16} {name descriptor ownerName : String}
    (hmember : p.nameAndType member = .ok (name, descriptor))
    (howner : p.className owner = .ok ownerName) (inInterface : Bool) :
    p.resolve owner member inInterface = .ok ⟨ownerName, name, descriptor, inInterface⟩ :=
  bind_eq_ok.2 ⟨_, hmember, bind_eq_ok.2 ⟨_, howner, rfl⟩⟩

/-- **A reference to a member** is made of its owner and of its name and descriptor, whatever kind of
constant it is. -/
theorem reference_ok {owner name descriptor : String} (reference : UInt16 → UInt16 → Constant)
    (inInterface : Bool)
    (h : (do
      let owner ← classRef owner
      let member ← nameAndType name descriptor
      constant (reference owner member)) b = .ok i b') :
    b.Grows b' ∧ ∃ ownerIndex member, b'.pool.get i = .ok (reference ownerIndex member) ∧
      b'.pool.resolve ownerIndex member inInterface =
        .ok ⟨owner, name, descriptor, inInterface⟩ := by
  obtain ⟨ownerIndex, b₁, howner, hrest⟩ := bind_run_ok.1 h
  obtain ⟨member, b₂, hmember, hlast⟩ := bind_run_ok.1 hrest
  obtain ⟨hgrows₁, hclass⟩ := classRef_ok howner
  obtain ⟨hgrows₂, hnames⟩ := nameAndType_ok hmember
  obtain ⟨hgrows, hget⟩ := constant_ok hlast
  exact ⟨hgrows₁.trans (hgrows₂.trans hgrows), ownerIndex, member, hget,
    resolve_eq_ok (hgrows.nameAndType hnames) ((hgrows₂.trans hgrows).className hclass) inInterface⟩

theorem fieldRef_ok {owner name descriptor : String}
    (h : fieldRef owner name descriptor b = .ok i b') :
    b.Grows b' ∧ ∃ ownerIndex member, b'.pool.get i = .ok (.fieldRef ownerIndex member) ∧
      b'.pool.resolve ownerIndex member false = .ok ⟨owner, name, descriptor, false⟩ :=
  reference_ok .fieldRef false h

theorem methodRef_ok {owner name descriptor : String} {inInterface : Bool}
    (h : methodRef owner name descriptor inInterface b = .ok i b') :
    b.Grows b' ∧ ∃ ownerIndex member,
      b'.pool.get i = .ok (if inInterface then .interfaceMethodRef ownerIndex member
        else .methodRef ownerIndex member) ∧
      b'.pool.resolve ownerIndex member inInterface =
        .ok ⟨owner, name, descriptor, inInterface⟩ :=
  reference_ok (fun owner member =>
    if inInterface then .interfaceMethodRef owner member else .methodRef owner member) inInterface h

/-- A result that needs no constants leaves the pool as it is. -/
theorem lift_ok {x : Except EmissionError α} {a : α} (h : lift x b = .ok a b') :
    x = .ok a ∧ b' = b := by
  cases x with
  | error e => cases h
  | ok x =>
    cases h
    exact ⟨rfl, rfl⟩

/-- A number of things that was counted fits into two bytes. -/
theorem count16_ok {what : Counted} {n : Nat} (h : count16 what n b = .ok i b') :
    n ≤ 65535 ∧ i = .ofNat n ∧ b' = b := by
  unfold count16 at h
  split at h
  · rename_i hle
    cases h
    exact ⟨hle, rfl, rfl⟩
  · cases h

theorem lift_bind (a : α) (f : α → Interner β) : (lift (.ok a) >>= f) = f a :=
  rfl

/-- **Interning for each element of a list.** What holds of an element when it is interned, and
survives the growth of the pool, holds of all in the end. -/
theorem mapM_ok {R : PoolBuilder → α → β → Prop} {f : α → Interner β} {xs : List α} {ys : List β}
    (hmono : ∀ {b b' x y}, b.Grows b' → R b x y → R b' x y)
    (hf : ∀ {x b y b'}, x ∈ xs → f x b = .ok y b' → b.Grows b' ∧ R b' x y)
    (h : xs.mapM f b = .ok ys b') : b.Grows b' ∧ List.Forall₂ (R b') xs ys := by
  induction xs generalizing b ys with
  | nil =>
    cases h
    exact ⟨.refl _, .nil⟩
  | cons x xs ih =>
    rw [List.mapM_cons] at h
    obtain ⟨y, b₁, hy, hrest⟩ := bind_run_ok.1 h
    obtain ⟨ys', b₂, hys, hresult⟩ := bind_run_ok.1 hrest
    cases hresult
    obtain ⟨hgrows₁, hr⟩ := hf List.mem_cons_self hy
    obtain ⟨hgrows, hrs⟩ := ih (fun hx => hf (List.mem_cons_of_mem x hx)) hys
    exact ⟨hgrows₁.trans hgrows, .cons (hmono hgrows hr) hrs⟩

/-! ## How interning fails -/

/-- **When a constant fails**: it is new, and there is no room for it. -/
theorem constant_eq_error {c : Constant} {e : EmissionError} :
    constant c b = .error e b' ↔ b' = b ∧ b.index[c]? = none ∧
      PoolBuilder.limit < b.count + c.width ∧ e = .tooManyConstants (b.count + c.width) := by
  unfold constant
  split
  · rename_i hindex
    simp [hindex]
  · rename_i hnew
    dsimp only
    split
    · rename_i hfits
      simp only [reduceCtorEq, false_iff, not_and]
      exact fun _ _ hfull => absurd hfits (Nat.not_le.2 hfull)
    · rename_i hfull
      simp only [EStateM.Result.error.injEq, hnew, Nat.not_le.1 hfull, true_and]
      rw [and_comm, eq_comm (a := b), eq_comm (a := EmissionError.tooManyConstants _)]

/-- **It fails only when the pool is full.** -/
def OnlyFull (m : Interner α) : Prop :=
  ∀ (b : PoolBuilder) (e : EmissionError) (b' : PoolBuilder), m b = .error e b' →
    ∃ count, e = .tooManyConstants count

namespace OnlyFull

theorem pure (a : α) : OnlyFull (Pure.pure a : Interner α) :=
  nofun

theorem bind {m : Interner α} {f : α → Interner β} (hm : OnlyFull m) (hf : ∀ a, OnlyFull (f a)) :
    OnlyFull (m >>= f) := by
  intro b e b' h
  change EStateM.bind m f b = .error e b' at h
  unfold EStateM.bind at h
  split at h
  · exact hf _ _ _ _ h
  · rename_i hfails
    cases h
    exact hm _ _ _ hfails

theorem constant (c : Constant) : OnlyFull (Interner.constant c) := by
  intro b e b' h
  obtain ⟨-, -, -, rfl⟩ := constant_eq_error.1 h
  exact ⟨_, rfl⟩

theorem classRef (name : String) : OnlyFull (Interner.classRef name) :=
  (constant _).bind fun _ => constant _

theorem mapM {f : α → Interner β} (hf : ∀ x, OnlyFull (f x)) (xs : List α) :
    OnlyFull (xs.mapM f) := by
  induction xs with
  | nil => exact pure []
  | cons x xs ih =>
    rw [List.mapM_cons]
    exact (hf x).bind fun _ => ih.bind fun _ => pure _

end OnlyFull

end Interner

end ProxyForge
