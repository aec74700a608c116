import Mathlib.Data.Set.Card
import ProxyForge.Proofs.Provider.Shelves
import ProxyForge.Provider.Request
/-!
# Histories of a cache

Loaders come and go, and a cache is asked. What it answers over a whole history is what a partial
map from loaders and keys would answer (`History.onCache_refines`): a success is stored for its
loader, a failure changes nothing, what is there is not created again, and with a loader all that
is for it goes. The map knows loaders by themselves and forgets at once. The cache knows them by
their addresses, which are given again, and drops what is left of a loader when it is next asked.
The two are run together, one event after the other, and the cache is settled in between.
-/

namespace ProxyForge

namespace Provider

/-! ## Loaders -/

/-- The loaders that there are, and that there were. -/
structure World where
  alive : List Loader
  gone : List Loader
  deriving Repr

namespace World

/-- No loader was ever there. -/
def start : World := ⟨[], []⟩

/-- Is the loader alive? -/
def isAlive (w : World) (loader : Loader) : Bool := loader ∈ w.alive

/-- Is or was the loader there? -/
def Knows (w : World) (loader : Loader) : Prop := loader ∈ w.alive ∨ loader ∈ w.gone

/-- **A loader can come** if it was never there and its address is free. Who was at the address
before does not matter. -/
def Admits (w : World) (loader : Loader) : Prop :=
  loader ∉ w.gone ∧ ∀ other ∈ w.alive, other.address ≠ loader.address

instance (w : World) (loader : Loader) : Decidable (w.Admits loader) :=
  inferInstanceAs (Decidable (_ ∧ _))

/-- **One address, one loader**, among those that are alive. -/
def Separate (w : World) : Prop :=
  ∀ a ∈ w.alive, ∀ b ∈ w.alive, a.address = b.address → a = b

end World

/-! ## Contents -/

/-- **A partial map** from loaders and keys to artifacts. -/
abbrev Contents (κ α : Type) : Type := Loader → κ → Option α

namespace Contents

variable {κ α : Type}

/-- Nothing is stored. -/
def empty : Contents κ α := fun _ _ => none

/-- With an artifact for a loader and a key. -/
def insert [DecidableEq κ] (f : Contents κ α) (loader : Loader) (key : κ) (a : α) :
    Contents κ α :=
  fun l k => if l = loader ∧ k = key then some a else f l k

/-- Without what is for a loader. -/
def forget (f : Contents κ α) (loader : Loader) : Contents κ α :=
  fun l k => if l = loader then none else f l k

/-- The number of artifacts for loaders that are alive. -/
noncomputable def size (w : World) (f : Contents κ α) : Nat :=
  {p : Loader × κ | p.1 ∈ w.alive ∧ (f p.1 p.2).isSome}.ncard

/-- The number of loaders, alive, with an artifact. -/
noncomputable def loaderCount (w : World) (f : Contents κ α) : Nat :=
  {l : Loader | l ∈ w.alive ∧ ∃ k, (f l k).isSome}.ncard

end Contents

/-! ## Events -/

/-- What happens to loaders, or is asked of a cache. -/
inductive Event (ε κ α : Type) (m : Type → Type)
  | come (loader : Loader)
  | go (loader : Loader)
  /-- Ask for an artifact, which is created if there is none. -/
  | obtain (loader : Loader) (key : κ) (create : m (Except ε α))
  /-- Ask for an artifact if there is one. -/
  | find (loader : Loader) (key : κ)
  | size
  | loaderCount

/-- What is answered. -/
inductive Answer (ε α : Type)
  | nothing
  | obtained (result : Except ε α)
  | found (artifact : Option α)
  | number (n : Nat)

namespace Event

variable {ε κ α : Type} {m : Type → Type}

/-- What a loader that comes or goes leaves of the world. -/
def after (w : World) : Event ε κ α m → World
  | come loader => ⟨loader :: w.alive, w.gone⟩
  | go loader => ⟨w.alive.filter (· ≠ loader), loader :: w.gone⟩
  | _ => w

/-- **What can happen**: a loader comes that can, one that is alive goes, and a cache is asked for
a loader that is alive. -/
def Possible (w : World) : Event ε κ α m → Prop
  | come loader => w.Admits loader
  | go loader | obtain loader _ _ | find loader _ => loader ∈ w.alive
  | size | loaderCount => True

variable [Monad m] [DecidableEq κ]

/-- **The event, for a cache.** -/
def onCache (w : World) : Event ε κ α m → StateT (Cache κ α) m (Answer ε α)
  | come _ | go _ => return .nothing
  | obtain loader key create =>
    .obtained <$> Cache.getOrCreate w.isAlive loader key (StateT.lift create)
  | find loader key => .found <$> modifyGet (Cache.get? w.isAlive loader key)
  | size => return .number ((← get).size w.isAlive)
  | loaderCount => return .number ((← get).shelfCount w.isAlive)

/-- **The event, for a map.** Creation runs if nothing is there, and only a success is stored. -/
noncomputable def onMap (w : World) : Event ε κ α m → StateT (Contents κ α) m (Answer ε α)
  | come _ => return .nothing
  | go loader => do
    modify fun f => f.forget loader
    return .nothing
  | obtain loader key create => do
    match (← get) loader key with
    | some a => return .obtained (.ok a)
    | none =>
      match ← StateT.lift create with
      | .ok a =>
        modify fun f => f.insert loader key a
        return .obtained (.ok a)
      | .error e => return .obtained (.error e)
  | find loader key => return .found ((← get) loader key)
  | size => return .number ((← get).size w)
  | loaderCount => return .number ((← get).loaderCount w)

end Event

/-- Events, one after the other. -/
abbrev History (ε κ α : Type) (m : Type → Type) : Type := List (Event ε κ α m)

namespace History

variable {ε κ α : Type} {m : Type → Type}

/-- The world at the end. -/
def after (w : World) : History ε κ α m → World
  | [] => w
  | e :: rest => after (e.after w) rest

/-- Each event can happen when it does. -/
def Possible (w : World) : History ε κ α m → Prop
  | [] => True
  | e :: rest => e.Possible w ∧ Possible (e.after w) rest

variable [Monad m] [DecidableEq κ]

/-- The answers of a cache. -/
def onCache (w : World) : History ε κ α m → StateT (Cache κ α) m (List (Answer ε α))
  | [] => return []
  | e :: rest => do
    let answer ← e.onCache w
    let answers ← onCache (e.after w) rest
    return answer :: answers

/-- The answers of a map. -/
noncomputable def onMap (w : World) :
    History ε κ α m → StateT (Contents κ α) m (List (Answer ε α))
  | [] => return []
  | e :: rest => do
    let answer ← e.onMap w
    let answers ← onMap (e.after w) rest
    return answer :: answers

end History

/-! ## The map that a cache is -/

namespace Cache

variable {κ α : Type} [DecidableEq κ] {w : World} {c : Cache κ α} {loader : Loader}
variable {key : κ} {a : α}

/-- **What a cache stands for**: for each loader that is alive, what is on its own shelf. -/
def contents (w : World) (c : Cache κ α) : Contents κ α := fun loader key =>
  if w.isAlive loader then
    (c.shelves.find? fun s => s.loader = loader).bind fun s => s.find? key
  else none

/-- **Between events** a cache is settled, and has shelves of loaders that came. -/
structure Rests (w : World) (c : Cache κ α) : Prop where
  settled : c.Settled
  known : ∀ s ∈ c.shelves, w.Knows s.loader

omit [DecidableEq κ] in
theorem rests_empty : (empty : Cache κ α).Rests .start where
  settled := settled_empty
  known := List.forall_mem_nil _

theorem contents_empty : (empty : Cache κ α).contents w = Contents.empty := by
  funext loader key
  simp [contents, empty, Contents.empty]

theorem Settled.contents_eq_some_iff (h : c.Settled) :
    c.contents w loader key = some a ↔ loader ∈ w.alive ∧ c.Holds loader key a := by
  rw [contents, World.isAlive]
  by_cases hl : loader ∈ w.alive
  · rw [if_pos (decide_eq_true hl), Option.bind_eq_some_iff]
    constructor
    · rintro ⟨s, hs, hf⟩
      have hmem := List.mem_of_find?_eq_some hs
      refine ⟨hl, s, hmem, by simpa using List.find?_some hs, ?_⟩
      exact (Shelf.find?_eq_some_iff (h.shelves s hmem)).1 hf
    · rintro ⟨-, s, hs, rfl, hp⟩
      refine ⟨s, ?_, (Shelf.find?_eq_some_iff (h.shelves s hs)).2 hp⟩
      cases hf : c.shelves.find? fun t => t.loader = s.loader with
      | none => simpa using List.find?_eq_none.1 hf s hs
      | some t =>
        have ht : t.loader = s.loader := by simpa using List.find?_some hf
        rw [h.eq_of_address (List.mem_of_find?_eq_some hf) hs (congrArg Loader.address ht)]
  · simp [hl]

theorem Settled.contents_eq (h : c.Settled) {f : Contents κ α}
    (hf : ∀ loader key a, f loader key = some a ↔ loader ∈ w.alive ∧ c.Holds loader key a) :
    c.contents w = f := by
  funext loader key
  exact Option.ext fun a => h.contents_eq_some_iff.trans (hf loader key a).symm

omit [DecidableEq κ] in
theorem holds_dropGone_isAlive :
    (c.dropGone w.isAlive).Holds loader key a ↔ loader ∈ w.alive ∧ c.Holds loader key a := by
  rw [holds_dropGone, World.isAlive, decide_eq_true_iff]

/-- What is left of loaders that are gone does not count. -/
theorem Settled.contents_dropGone (h : c.Settled) :
    (c.dropGone w.isAlive).contents w = c.contents w :=
  (h.dropGone _).contents_eq fun loader key a => by
    rw [h.contents_eq_some_iff, holds_dropGone_isAlive]
    tauto

omit [DecidableEq κ] in
/-- **Once the shelves of others are dropped**, the shelf at an address is that of the loader who
has it. -/
theorem owns_dropGone (hw : w.Separate) (hl : loader ∈ w.alive) :
    (c.dropGone w.isAlive).Owns loader := by
  intro s hs ha
  exact hw s.loader (of_decide_eq_true (mem_dropGone.1 hs).2) loader hl ha

/-- **A lookup reads the map.** -/
theorem Settled.find?_dropGone (h : c.Settled) (hw : w.Separate) (hl : loader ∈ w.alive)
    (key : κ) : (c.dropGone w.isAlive).find? loader key = c.contents w loader key := by
  refine Option.ext fun a => ?_
  rw [find?_eq_some_iff (h.dropGone _) (owns_dropGone hw hl), h.contents_eq_some_iff,
    holds_dropGone_isAlive]

omit [DecidableEq κ] in
theorem Rests.dropGone (h : c.Rests w) : (c.dropGone w.isAlive).Rests w where
  settled := h.settled.dropGone _
  known s hs := h.known s (mem_dropGone.1 hs).1

/-- **Storing inserts.** -/
theorem Settled.contents_store (h : c.Settled) (howns : c.Owns loader) (hl : loader ∈ w.alive)
    (hf : c.find? loader key = none) (a : α) :
    (c.store loader key a).contents w = (c.contents w).insert loader key a := by
  refine (h.store hf a).contents_eq fun l k b => ?_
  rw [holds_store howns, Contents.insert]
  have habsent : ¬ c.Holds loader key b := fun hb => by
    simp [(find?_eq_some_iff h howns).2 hb] at hf
  by_cases hp : l = loader ∧ k = key
  · obtain ⟨rfl, rfl⟩ := hp
    simp [hl, habsent, eq_comm]
  · rw [if_neg hp, h.contents_eq_some_iff]
    tauto

theorem Rests.store (h : c.Rests w) (hl : loader ∈ w.alive) (hf : c.find? loader key = none)
    (a : α) : (c.store loader key a).Rests w where
  settled := h.settled.store hf a
  known s hs := by
    rcases loader_of_mem_store hs with he | ⟨t, ht, he⟩
    · exact he ▸ .inl hl
    · exact he ▸ h.known t ht

/-- **The size is that of the map.** -/
theorem Settled.size_contents (h : c.Settled) :
    c.size w.isAlive = (c.contents w).size w := by
  classical
  have hset : {p : Loader × κ | p.1 ∈ w.alive ∧ (c.contents w p.1 p.2).isSome} =
      (c.dropGone w.isAlive).entries.toFinset := by
    ext ⟨loader, key⟩
    simp only [Set.mem_ofPred_eq, List.coe_toFinset, (h.dropGone _).mem_entries,
      Option.isSome_iff_exists, h.contents_eq_some_iff, holds_dropGone_isAlive]
    exact ⟨fun hp => hp.2, fun ⟨a, hl, ha⟩ => ⟨hl, a, hl, ha⟩⟩
  rw [h.size_eq, Contents.size, hset, Set.ncard_coe_finset,
    List.toFinset_card_of_nodup (h.dropGone _).entries_nodup]

/-- **Shelves are counted as loaders of the map.** -/
theorem Settled.shelfCount_contents (h : c.Settled) :
    c.shelfCount w.isAlive = (c.contents w).loaderCount w := by
  have hset : {l : Loader | l ∈ w.alive ∧ ∃ k, (c.contents w l k).isSome} =
      ((c.dropGone w.isAlive).shelves.map Shelf.loader).toFinset := by
    ext loader
    simp only [Set.mem_ofPred_eq, List.coe_toFinset, (h.dropGone _).mem_loaders,
      Option.isSome_iff_exists, h.contents_eq_some_iff, holds_dropGone_isAlive]
    exact ⟨fun hp => hp.2, fun ⟨k, a, hl, ha⟩ => ⟨hl, k, a, hl, ha⟩⟩
  rw [shelfCount, Contents.loaderCount, hset, Set.ncard_coe_finset,
    List.toFinset_card_of_nodup (h.dropGone _).loaders_nodup, List.length_map]

end Cache

/-! ## One event -/

section Coupling

variable {ε κ α β γ : Type} [DecidableEq κ] {m : Type → Type} [Monad m] [LawfulMonad m]
variable {w w' : World}

/-- **Two computations are one** that gives caches at rest, and the maps that these stand for. -/
def Coupled (w : World) (x : m (β × Cache κ α)) (y : m (β × Contents κ α)) : Prop :=
  ∃ z : m (β × {c : Cache κ α // c.Rests w}),
    x = (fun r => (r.1, r.2.1)) <$> z ∧ y = (fun r => (r.1, r.2.1.contents w)) <$> z

namespace Coupled

theorem pure (b : β) {c : Cache κ α} (h : c.Rests w) {f : Contents κ α}
    (hf : c.contents w = f) : Coupled w (pure (b, c)) (pure (b, f) : m _) :=
  ⟨Pure.pure (b, ⟨c, h⟩), by simp, by simp [hf]⟩

theorem bind {x : m (β × Cache κ α)} {y : m (β × Contents κ α)} (h : Coupled w x y)
    {f : β × Cache κ α → m (γ × Cache κ α)} {g : β × Contents κ α → m (γ × Contents κ α)}
    (hfg : ∀ b c, c.Rests w → Coupled w' (f (b, c)) (g (b, c.contents w))) :
    Coupled w' (x >>= f) (y >>= g) := by
  obtain ⟨z, rfl, rfl⟩ := h
  choose next hf hg using hfg
  refine ⟨z >>= fun r => next r.1 r.2.1 r.2.2, ?_, ?_⟩
  · simp [map_bind, ← hf]
  · simp [map_bind, ← hg]

/-- Both run the same computation first. -/
theorem bind_left (t : m β) {f : β → m (γ × Cache κ α)} {g : β → m (γ × Contents κ α)}
    (hfg : ∀ b, Coupled w (f b) (g b)) : Coupled w (t >>= f) (t >>= g) := by
  choose next hf hg using hfg
  refine ⟨t >>= next, ?_, ?_⟩
  · simp [map_bind, ← hf]
  · simp [map_bind, ← hg]

end Coupled

end Coupling

namespace Event

variable {ε κ α : Type} [DecidableEq κ] {m : Type → Type}
variable {w : World} {c : Cache κ α}

omit [DecidableEq κ] in
/-- An address has one loader at a time. -/
theorem separate_after {e : Event ε κ α m} (hw : w.Separate) (he : e.Possible w) :
    (e.after w).Separate := by
  cases e with
  | come loader =>
    intro a ha b hb hab
    rcases List.mem_cons.1 ha with rfl | ha' <;> rcases List.mem_cons.1 hb with rfl | hb'
    · rfl
    · exact absurd hab.symm (he.2 b hb')
    · exact absurd hab (he.2 a ha')
    · exact hw a ha' b hb' hab
  | go loader =>
    intro a ha b hb
    exact hw a (List.mem_filter.1 ha).1 b (List.mem_filter.1 hb).1
  | obtain | find | size | loaderCount => exact hw

/-- **A loader that comes finds nothing**, whatever is left at its address. -/
theorem contents_come {loader : Loader} (hc : c.Rests w) (hl : w.Admits loader) :
    c.contents (after w (come loader : Event ε κ α m)) = c.contents w := by
  refine hc.settled.contents_eq fun l k a => ?_
  rw [hc.settled.contents_eq_some_iff, after, List.mem_cons]
  -- a shelf is of a loader that is alive, whose address is taken, or of one that was there
  refine and_congr_left fun hholds => (or_iff_right ?_).symm
  rintro rfl
  obtain ⟨s, hs, he, -⟩ := hholds
  rcases hc.known s hs with halive | hgone
  · exact hl.2 _ halive (congrArg Loader.address he)
  · exact hl.1 (he ▸ hgone)

/-- **A loader that goes takes what is for it**, and no more. -/
theorem contents_go {loader : Loader} (hc : c.Settled) :
    c.contents (after w (go loader : Event ε κ α m)) = (c.contents w).forget loader := by
  refine hc.contents_eq fun l k a => ?_
  rw [Contents.forget, after, List.mem_filter]
  by_cases hl : l = loader
  · simp [hl]
  · simp [hl, hc.contents_eq_some_iff]

omit [DecidableEq κ] in
theorem rests_come {loader : Loader} (hc : c.Rests w) :
    c.Rests (after w (come loader : Event ε κ α m)) where
  settled := hc.settled
  known s hs := (hc.known s hs).imp_left (List.mem_cons_of_mem loader)

omit [DecidableEq κ] in
theorem rests_go {loader : Loader} (hc : c.Rests w) :
    c.Rests (after w (go loader : Event ε κ α m)) where
  settled := hc.settled
  known s hs := by
    by_cases hl : s.loader = loader
    · exact .inr (hl ▸ List.mem_cons_self)
    · refine (hc.known s hs).imp (fun h => ?_) (List.mem_cons_of_mem loader)
      exact List.mem_filter.2 ⟨h, decide_eq_true hl⟩

variable [Monad m] [LawfulMonad m]

/-- **One event**, for a cache at rest and for the map it stands for. -/
theorem coupled (e : Event ε κ α m) (hw : w.Separate) (hc : c.Rests w) (he : e.Possible w) :
    Coupled (e.after w) ((e.onCache w).run c) ((e.onMap w).run (c.contents w)) := by
  cases e with
  | come loader =>
    exact .pure Answer.nothing (rests_come hc) (contents_come hc he)
  | go loader =>
    simp only [onCache, onMap, StateT.run_bind, StateT.run_modify, StateT.run_pure, pure_bind]
    exact .pure Answer.nothing (rests_go hc) (contents_go hc.settled)
  | obtain loader key create =>
    have hfind := hc.settled.find?_dropGone hw he key
    have hsame : (c.dropGone w.isAlive).contents w = c.contents w := hc.settled.contents_dropGone
    cases hf : c.contents w loader key with
    | some a =>
      simp only [onCache, onMap, StateT.run_map, StateT.run_bind, StateT.run_get, pure_bind, hf,
        Cache.run_getOrCreate_of_some hc.settled (hfind.trans hf), map_pure, StateT.run_pure]
      exact .pure _ hc.dropGone hsame
    | none =>
      simp only [onCache, onMap, StateT.run_map, StateT.run_bind, StateT.run_get, pure_bind, hf,
        Cache.run_getOrCreate_of_none hc.settled (hfind.trans hf), map_bind, map_pure,
        StateT.run_lift, bind_assoc]
      -- what is created depends on neither, and both record it
      refine .bind_left create fun result => ?_
      cases result with
      | error e => exact .pure _ hc.dropGone hsame
      | ok a =>
        simp only [StateT.run_bind, StateT.run_modify, StateT.run_pure, pure_bind]
        refine .pure _ (hc.dropGone.store he (hfind.trans hf) a) ?_
        rw [hc.dropGone.settled.contents_store (Cache.owns_dropGone hw he) he
          (hfind.trans hf), hsame]
  | find loader key =>
    simp only [onCache, onMap, StateT.run_map, StateT.run_bind, StateT.run_get, pure_bind,
      StateT.run_modifyGet, Cache.get?, hc.settled.find?_dropGone hw he key, map_pure,
      StateT.run_pure]
    exact .pure _ hc.dropGone hc.settled.contents_dropGone
  | size =>
    simp only [onCache, onMap, StateT.run_bind, StateT.run_get, pure_bind, StateT.run_pure,
      hc.settled.size_contents]
    exact .pure _ hc rfl
  | loaderCount =>
    simp only [onCache, onMap, StateT.run_bind, StateT.run_get, pure_bind, StateT.run_pure,
      hc.settled.shelfCount_contents]
    exact .pure _ hc rfl

end Event

/-! ## All events -/

namespace History

variable {ε κ α : Type} [DecidableEq κ] {m : Type → Type} [Monad m] [LawfulMonad m]

/-- **A history**, for a cache at rest and for the map it stands for. -/
theorem coupled (history : History ε κ α m) {w : World} {c : Cache κ α} (hw : w.Separate)
    (hc : c.Rests w) (h : history.Possible w) :
    Coupled (history.after w) ((history.onCache w).run c)
      ((history.onMap w).run (c.contents w)) := by
  induction history generalizing w c with
  | nil => exact .pure _ hc rfl
  | cons e rest ih =>
    simp only [onCache, onMap, StateT.run_bind]
    refine (e.coupled hw hc h.1).bind fun answer c' hc' => ?_
    refine (ih (e.separate_after hw h.1) hc' h.2).bind fun answers c'' hc'' => ?_
    exact .pure _ hc'' rfl

/-- **A cache is a partial map** from loaders and keys to artifacts. Over every history that can
happen, it gives the answers of the map that forgets a loader when it goes, it runs the creations
that the map runs, in the same order, and it ends with the same contents. -/
theorem onCache_refines (history : History ε κ α m) (h : history.Possible .start) :
    (fun r => (r.1, r.2.contents (history.after .start))) <$> (history.onCache .start).run .empty =
      (history.onMap .start).run .empty := by
  have hstart : World.start.Separate := List.forall_mem_nil _
  obtain ⟨z, hcache, hmap⟩ := history.coupled hstart Cache.rests_empty h
  rw [Cache.contents_empty] at hmap
  rw [hcache, hmap, Functor.map_map]

/-- A loader comes, creation fails and then succeeds, the loader goes, and another comes to its
address. What is created is numbered. -/
def addressReused : History String Nat Nat (StateM Nat) :=
  let first : Loader := ⟨7, 0⟩
  let second : Loader := ⟨7, 1⟩
  let create : StateM Nat (Except String Nat) := modifyGet fun n => (.ok n, n + 1)
  [.come first, .obtain first 3 (return .error "refused"), .loaderCount, .obtain first 3 create,
    .obtain first 3 create, .size, .go first, .come second, .find second 3, .loaderCount,
    .obtain second 3 create, .size]

/-- The failure leaves no loader, the artifact is returned again, and the one who has the address
next does not see it. -/
theorem onCache_addressReused :
    addressReused.Possible .start ∧
      (fun r => (r.1, r.2.contents (addressReused.after .start))) <$>
          (addressReused.onCache .start).run .empty =
        (addressReused.onMap .start).run .empty ∧
      (((addressReused.onCache .start).run .empty).run 0).1.1 =
        [.nothing, .obtained (.error "refused"), .number 0, .obtained (.ok 0), .obtained (.ok 0),
          .number 1, .nothing, .nothing, .found none, .number 0, .obtained (.ok 1), .number 1] := by
  have hpossible : addressReused.Possible .start := by
    simp [addressReused, Possible, Event.Possible, Event.after, World.start, World.Admits]
  exact ⟨hpossible, onCache_refines addressReused hpossible, rfl⟩

end History

/-! ## Requests for classes -/

open Proxy (Artifact)

/-- What a request creates if nothing is there: a class with the next number. -/
def creation {m : Type → Type} [Monad m] (settings : Settings) (factory : Factory m)
    (location : Location) (loader : Loader) (demand : Demand) :
    StateT UInt64 m (Except RequestError Artifact) := do
  let number ← drawNumber
  StateT.lift (factory loader (blueprintFor settings location number demand))

variable {m : Type → Type} [Monad m] [LawfulMonad m] {settings : Settings} {factory : Factory m}
variable {location : Location} {demand : Demand}

/-- **A request that passes the check asks the cache**, with the surface and the parameters as key.
Creation does not use the cache. -/
theorem request_eq_getOrCreate (live : Loader → Bool) (loader : Loader)
    (h : Location.ofRequest demand.surface demand.params = .ok location) :
    request settings factory live loader demand = Cache.getOrCreate live loader demand
      (StateT.lift (creation settings factory location loader demand)) := by
  have hlift : (do
      let number ← (drawNumber : StateT UInt64 m UInt64)
      factory loader (blueprintFor settings location number demand) : Session m _) =
      StateT.lift (creation settings factory location loader demand) := by
    ext
    simp [creation]
  rw [request, h, ← hlift]

/-- So it is an event of a history. -/
theorem request_eq_onCache (w : World) (loader : Loader)
    (h : Location.ofRequest demand.surface demand.params = .ok location) :
    Answer.obtained <$> request settings factory w.isAlive loader demand =
      (Event.obtain loader demand (creation settings factory location loader demand)).onCache w := by
  rw [request_eq_getOrCreate w.isAlive loader h]
  rfl

end Provider

end ProxyForge
