import Mathlib.Data.List.Nodup
import ProxyForge.Provider.Cache
/-!
# Settled caches

Between requests nothing is being created: every place has its artifact, no key has two places, no
shelf is empty, and no two shelves stand at one address (`Cache.Settled`). A request for a key
without an artifact reserves a place and settles it when creation is done. Seen from its two ends
this stores the artifact, if there is one (`Cache.settle_reserve_ok`), and otherwise changes
nothing (`Cache.settle_reserve_error`), the order of shelves and places included. So a request on
a settled cache either returns what is there, or creates and records (`run_getOrCreate_of_some`,
`run_getOrCreate_of_none`).
-/

namespace ProxyForge

namespace Provider

variable {κ α : Type}

namespace Shelf

/-- **Nothing is being created** for the loader, and something is there. -/
structure Settled (s : Shelf κ α) : Prop where
  nonempty : s.places ≠ []
  keys_nodup : (s.places.map Prod.fst).Nodup
  isSome_of_mem : ∀ p ∈ s.places, p.2.isSome

/-- With an artifact for a key that has no place. -/
def store (s : Shelf κ α) (key : κ) (artifact : α) : Shelf κ α :=
  { s with places := (key, some artifact) :: s.places }

@[simp] theorem store_loader (s : Shelf κ α) (key : κ) (a : α) :
    (s.store key a).loader = s.loader := rfl

variable {s : Shelf κ α} {key : κ} {a : α}

theorem settled_singleton (loader : Loader) (key : κ) (a : α) :
    (⟨loader, [(key, some a)]⟩ : Shelf κ α).Settled where
  nonempty := List.cons_ne_nil _ _
  keys_nodup := List.nodup_singleton key
  isSome_of_mem := by simp

/-- Where every place has its artifact, artifacts are counted by places. -/
theorem Settled.size_eq (h : s.Settled) : s.size = s.places.length :=
  List.countP_eq_length.2 h.isSome_of_mem

variable [DecidableEq κ]

@[simp] theorem reserve_loader : (s.reserve key).loader = s.loader := by
  unfold reserve
  split <;> rfl

@[simp] theorem vacate_loader : (s.vacate key).loader = s.loader := rfl

@[simp] theorem fill_loader : (s.fill key a).loader = s.loader := rfl

theorem find?_eq_some_iff (h : s.Settled) :
    s.find? key = some a ↔ (key, some a) ∈ s.places := by
  rw [find?, Option.join_eq_some_iff, List.lookup_eq_some_iff]
  constructor
  · rintro ⟨before, after, hs, -⟩
    exact hs ▸ List.mem_append_right _ List.mem_cons_self
  · intro hmem
    obtain ⟨before, after, hs⟩ := List.append_of_mem hmem
    refine ⟨before, after, hs, fun p hp => ?_⟩
    -- a place in front of this one is for another key
    have hnodup := h.keys_nodup
    rw [hs, List.map_append, List.map_cons, List.nodup_append] at hnodup
    have hne := hnodup.2.2 p.1 (List.mem_map_of_mem hp) key List.mem_cons_self
    simpa using Ne.symm hne

/-- A key without an artifact has no place. -/
theorem Settled.lookup_eq_none (h : s.Settled) (hf : s.find? key = none) :
    s.places.lookup key = none := by
  cases hl : s.places.lookup key with
  | none => rfl
  | some v =>
    obtain ⟨before, after, hs, -⟩ := List.lookup_eq_some_iff.1 hl
    have hv := h.isSome_of_mem (key, v) (hs ▸ List.mem_append_right _ List.mem_cons_self)
    rw [find?, hl, Option.join_some] at hf
    simp [hf] at hv

theorem notMem_keys_of_lookup (h : s.places.lookup key = none) :
    ∀ p ∈ s.places, p.1 ≠ key := by
  intro p hp hkey
  simpa [hkey] using List.lookup_eq_none_iff.1 h p hp

/-- A place that was reserved and then filled is a place that was stored. -/
theorem fill_reserve (h : s.places.lookup key = none) :
    (s.reserve key).fill key a = s.store key a := by
  have hother : ∀ p ∈ s.places, (if p.1 = key then (key, some a) else p) = id p :=
    fun p hp => if_neg (notMem_keys_of_lookup h p hp)
  simp [reserve, h, fill, store, List.map_congr_left hother]

/-- A place that was reserved and then given up was never there. -/
theorem vacate_reserve (h : s.places.lookup key = none) : (s.reserve key).vacate key = s := by
  have hrest : (s.places.filter fun p => p.1 ≠ key) = s.places :=
    List.filter_eq_self.2 fun p hp => decide_eq_true (notMem_keys_of_lookup h p hp)
  rw [reserve, h, vacate, List.filter_cons_of_neg (by simp), hrest]

theorem reserve_eq_self (h : (s.find? key).isSome) : s.reserve key = s := by
  unfold reserve
  split
  · rfl
  · next hl => simp [find?, hl] at h

theorem find?_reserve (h : s.find? key = none) : (s.reserve key).find? key = none := by
  unfold reserve
  split
  · exact h
  · simp [find?]

theorem Settled.store (h : s.Settled) (hf : s.find? key = none) (a : α) :
    (s.store key a).Settled where
  nonempty := List.cons_ne_nil _ _
  keys_nodup := by
    refine List.nodup_cons.2 ⟨fun hmem => ?_, h.keys_nodup⟩
    obtain ⟨p, hp, hkey⟩ := List.mem_map.1 hmem
    exact notMem_keys_of_lookup (h.lookup_eq_none hf) p hp hkey
  isSome_of_mem := List.forall_mem_cons.2 ⟨rfl, h.isSome_of_mem⟩

end Shelf

namespace Cache

/-- **Nothing is being created**, for any loader. -/
structure Settled (c : Cache κ α) : Prop where
  addresses_nodup : (c.shelves.map fun s => s.loader.address).Nodup
  shelves : ∀ s ∈ c.shelves, s.Settled

/-- **What a cache holds**: an artifact for a loader and a key. -/
def Holds (c : Cache κ α) (loader : Loader) (key : κ) (a : α) : Prop :=
  ∃ s ∈ c.shelves, s.loader = loader ∧ (key, some a) ∈ s.places

/-- **Nobody else at the address** of a loader has a shelf. -/
def Owns (c : Cache κ α) (loader : Loader) : Prop :=
  ∀ s ∈ c.shelves, s.loader.address = loader.address → s.loader = loader

theorem settled_empty : (empty : Cache κ α).Settled where
  addresses_nodup := List.nodup_nil
  shelves := List.forall_mem_nil _

variable {c : Cache κ α} {live : Loader → Bool} {loader : Loader}

theorem mem_dropGone {s : Shelf κ α} :
    s ∈ (c.dropGone live).shelves ↔ s ∈ c.shelves ∧ live s.loader :=
  List.mem_filter

theorem Settled.dropGone (h : c.Settled) (live : Loader → Bool) : (c.dropGone live).Settled where
  addresses_nodup := h.addresses_nodup.sublist (List.filter_sublist.map _)
  shelves s hs := h.shelves s (mem_dropGone.1 hs).1

theorem holds_dropGone {key : κ} {a : α} :
    (c.dropGone live).Holds loader key a ↔ live loader ∧ c.Holds loader key a := by
  constructor
  · rintro ⟨s, hs, rfl, hp⟩
    obtain ⟨hmem, hlive⟩ := mem_dropGone.1 hs
    exact ⟨hlive, s, hmem, rfl, hp⟩
  · rintro ⟨hlive, s, hs, rfl, hp⟩
    exact ⟨s, mem_dropGone.2 ⟨hs, hlive⟩, rfl, hp⟩

/-- Two shelves of a settled cache at one address are one. -/
theorem Settled.eq_of_address (h : c.Settled) {s t : Shelf κ α} (hs : s ∈ c.shelves)
    (ht : t ∈ c.shelves) (he : s.loader.address = t.loader.address) : s = t :=
  List.inj_on_of_nodup_map h.addresses_nodup hs ht he

theorem shelf?_eq_some {s : Shelf κ α} (h : c.shelf? loader = some s) :
    s ∈ c.shelves ∧ s.loader.address = loader.address :=
  ⟨List.mem_of_find?_eq_some h, by simpa using List.find?_some h⟩

theorem shelf?_eq_none (h : c.shelf? loader = none) :
    ∀ s ∈ c.shelves, s.loader.address ≠ loader.address := by
  intro s hs
  simpa using List.find?_eq_none.1 h s hs

/-- The shelf at an address is the one shelf there. -/
theorem Settled.shelf?_eq (h : c.Settled) {s : Shelf κ α} (hs : s ∈ c.shelves)
    (ha : s.loader.address = loader.address) : c.shelf? loader = some s := by
  cases hf : c.shelf? loader with
  | none => exact absurd ha (shelf?_eq_none hf s hs)
  | some t =>
    obtain ⟨ht, hta⟩ := shelf?_eq_some hf
    rw [h.eq_of_address ht hs (hta.trans ha.symm)]

/-- A change that one shelf alone is subject to. -/
theorem Settled.modifyShelf_congr (h : c.Settled) {s : Shelf κ α} (hs : c.shelf? loader = some s)
    {f g : Shelf κ α → Shelf κ α} (hfg : f s = g s) :
    c.modifyShelf loader f = c.modifyShelf loader g := by
  obtain ⟨hmem, ha⟩ := shelf?_eq_some hs
  refine congrArg Cache.mk (List.map_congr_left fun t ht => ?_)
  by_cases hta : t.loader.address = loader.address
  · rw [if_pos hta, if_pos hta, h.eq_of_address ht hmem (hta.trans ha.symm), hfg]
  · rw [if_neg hta, if_neg hta]

theorem modifyShelf_id : c.modifyShelf loader id = c := by
  simp [modifyShelf]

theorem modifyShelf_modifyShelf {f g : Shelf κ α → Shelf κ α}
    (hf : ∀ s, (f s).loader = s.loader) :
    (c.modifyShelf loader f).modifyShelf loader g = c.modifyShelf loader (g ∘ f) := by
  refine congrArg Cache.mk ?_
  rw [modifyShelf, List.map_map]
  refine List.map_congr_left fun s _ => ?_
  by_cases hs : s.loader.address = loader.address <;> simp [hs, hf]

theorem shelf?_modifyShelf {f : Shelf κ α → Shelf κ α} (hf : ∀ s, (f s).loader = s.loader) :
    (c.modifyShelf loader f).shelf? loader = (c.shelf? loader).map f := by
  have hsame : ((fun s : Shelf κ α => decide (s.loader.address = loader.address)) ∘
      fun s => if s.loader.address = loader.address then f s else s) =
      fun s => decide (s.loader.address = loader.address) := by
    funext s
    by_cases hs : s.loader.address = loader.address <;> simp [hs, hf]
  rw [shelf?, modifyShelf, List.find?_map, hsame]
  refine Option.map_congr fun s hs => if_pos (shelf?_eq_some hs).2

/-- Without a shelf at the address there is nothing to change. -/
theorem modifyShelf_of_shelf?_eq_none (h : c.shelf? loader = none) (f : Shelf κ α → Shelf κ α) :
    c.modifyShelf loader f = c := by
  have hother : ∀ s ∈ c.shelves,
      (if s.loader.address = loader.address then f s else s) = id s :=
    fun s hs => if_neg (shelf?_eq_none h s hs)
  rw [modifyShelf, List.map_congr_left hother, List.map_id]

theorem shelf?_cons_self {s : Shelf κ α} (hs : s.loader.address = loader.address) :
    (⟨s :: c.shelves⟩ : Cache κ α).shelf? loader = some s :=
  List.find?_cons_of_pos (decide_eq_true hs)

theorem modifyShelf_cons_self (f : Shelf κ α → Shelf κ α) (s : Shelf κ α)
    (hs : s.loader.address = loader.address) :
    (⟨s :: c.shelves⟩ : Cache κ α).modifyShelf loader f =
      ⟨f s :: (c.modifyShelf loader f).shelves⟩ := by
  simp [modifyShelf, hs]

/-- With an artifact for a key that has no place. -/
def store (c : Cache κ α) (loader : Loader) (key : κ) (a : α) : Cache κ α :=
  match c.shelf? loader with
  | some _ => c.modifyShelf loader fun s => s.store key a
  | none => ⟨⟨loader, [(key, some a)]⟩ :: c.shelves⟩

variable {key : κ} {a : α}

/-! ## What is stored -/

theorem mem_modifyShelf {f : Shelf κ α → Shelf κ α} {t : Shelf κ α} :
    t ∈ (c.modifyShelf loader f).shelves ↔
      ∃ s ∈ c.shelves, (if s.loader.address = loader.address then f s else s) = t :=
  List.mem_map

/-- **Storing adds the one entry** and takes nothing away. -/
theorem holds_store (howns : c.Owns loader) {other : Loader} {key' : κ} {a' : α} :
    (c.store loader key a).Holds other key' a' ↔
      (other = loader ∧ key' = key ∧ a' = a) ∨ c.Holds other key' a' := by
  unfold store
  split
  · next s hs =>
    constructor
    · rintro ⟨t, ht, rfl, hp⟩
      obtain ⟨u, hu, rfl⟩ := mem_modifyShelf.1 ht
      by_cases hua : u.loader.address = loader.address
      · rw [if_pos hua] at hp ⊢
        rcases List.mem_cons.1 hp with hnew | hold
        · cases hnew
          exact .inl ⟨howns u hu hua, rfl, rfl⟩
        · exact .inr ⟨u, hu, rfl, hold⟩
      · rw [if_neg hua] at hp ⊢
        exact .inr ⟨u, hu, rfl, hp⟩
    · rintro (⟨rfl, rfl, rfl⟩ | ⟨u, hu, rfl, hp⟩)
      · obtain ⟨hmem, ha⟩ := shelf?_eq_some hs
        refine ⟨s.store key' a', mem_modifyShelf.2 ⟨s, hmem, if_pos ha⟩, howns s hmem ha, ?_⟩
        exact List.mem_cons_self
      · by_cases hua : u.loader.address = loader.address
        · exact ⟨u.store key a, mem_modifyShelf.2 ⟨u, hu, if_pos hua⟩, rfl,
            List.mem_cons_of_mem _ hp⟩
        · exact ⟨u, mem_modifyShelf.2 ⟨u, hu, if_neg hua⟩, rfl, hp⟩
  · constructor
    · rintro ⟨t, ht, rfl, hp⟩
      rcases List.mem_cons.1 ht with rfl | ht
      · cases List.mem_singleton.1 hp
        exact .inl ⟨rfl, rfl, rfl⟩
      · exact .inr ⟨t, ht, rfl, hp⟩
    · rintro (⟨rfl, rfl, rfl⟩ | ⟨u, hu, rfl, hp⟩)
      · exact ⟨_, List.mem_cons_self, rfl, List.mem_singleton_self _⟩
      · exact ⟨u, List.mem_cons_of_mem _ hu, rfl, hp⟩

/-- Storing brings no loader to the cache but the one it is for. -/
theorem loader_of_mem_store {t : Shelf κ α} (ht : t ∈ (c.store loader key a).shelves) :
    t.loader = loader ∨ ∃ s ∈ c.shelves, s.loader = t.loader := by
  unfold store at ht
  split at ht
  · obtain ⟨s, hs, rfl⟩ := mem_modifyShelf.1 ht
    refine .inr ⟨s, hs, ?_⟩
    split <;> rfl
  · rcases List.mem_cons.1 ht with rfl | ht
    · exact .inl rfl
    · exact .inr ⟨t, ht, rfl⟩

/-! ## Counting -/

/-- The keys with a place, and their loaders. -/
def entries (c : Cache κ α) : List (Loader × κ) :=
  c.shelves.flatMap fun s => s.places.map fun p => (s.loader, p.1)

theorem Settled.mem_entries (h : c.Settled) {key : κ} :
    (loader, key) ∈ c.entries ↔ ∃ a, c.Holds loader key a := by
  constructor
  · intro hmem
    obtain ⟨s, hs, hp⟩ := List.mem_flatMap.1 hmem
    obtain ⟨p, hp, he⟩ := List.mem_map.1 hp
    obtain ⟨a, ha⟩ := Option.isSome_iff_exists.1 ((h.shelves s hs).isSome_of_mem p hp)
    cases he
    exact ⟨a, s, hs, rfl, by rwa [← ha]⟩
  · rintro ⟨a, s, hs, rfl, hp⟩
    exact List.mem_flatMap.2 ⟨s, hs, List.mem_map.2 ⟨_, hp, rfl⟩⟩

theorem Settled.loaders_nodup (h : c.Settled) : (c.shelves.map Shelf.loader).Nodup :=
  List.Nodup.of_map Loader.address (by rw [List.map_map]; exact h.addresses_nodup)

theorem Settled.entries_nodup (h : c.Settled) : c.entries.Nodup := by
  refine List.nodup_flatMap.2 ⟨fun s hs => ?_, ?_⟩
  · refine List.Nodup.of_map Prod.snd ?_
    rw [List.map_map]
    exact (h.shelves s hs).keys_nodup
  · refine (List.pairwise_map.1 h.loaders_nodup).imp fun {s t} hne => ?_
    intro e hs ht
    obtain ⟨p, -, rfl⟩ := List.mem_map.1 hs
    obtain ⟨q, -, hq⟩ := List.mem_map.1 ht
    exact hne (congrArg Prod.fst hq).symm

theorem Settled.mem_loaders (h : c.Settled) :
    loader ∈ c.shelves.map Shelf.loader ↔ ∃ key a, c.Holds loader key a := by
  constructor
  · intro hmem
    obtain ⟨s, hs, rfl⟩ := List.mem_map.1 hmem
    obtain ⟨p, hp⟩ := List.exists_mem_of_ne_nil _ (h.shelves s hs).nonempty
    obtain ⟨a, ha⟩ := Option.isSome_iff_exists.1 ((h.shelves s hs).isSome_of_mem p hp)
    exact ⟨p.1, a, s, hs, rfl, by rwa [← ha]⟩
  · rintro ⟨key, a, s, hs, rfl, -⟩
    exact List.mem_map_of_mem hs

/-- **The size counts entries.** -/
theorem Settled.size_eq (h : c.Settled) (live : Loader → Bool) :
    c.size live = (c.dropGone live).entries.length := by
  have hsizes : ∀ s ∈ (c.dropGone live).shelves,
      s.size = (s.places.map fun p => (s.loader, p.1)).length := by
    intro s hs
    rw [List.length_map, ((h.dropGone live).shelves s hs).size_eq]
  rw [size, ← List.foldl_map, ← List.sum_eq_foldl, entries, List.length_flatMap,
    List.map_congr_left hsizes]

/-! ## Reserving and settling -/

variable [DecidableEq κ]

theorem find?_eq_some_iff (h : c.Settled) (howns : c.Owns loader) :
    c.find? loader key = some a ↔ c.Holds loader key a := by
  rw [find?, Option.bind_eq_some_iff]
  constructor
  · rintro ⟨s, hs, hf⟩
    obtain ⟨hmem, ha⟩ := shelf?_eq_some hs
    exact ⟨s, hmem, howns s hmem ha, (Shelf.find?_eq_some_iff (h.shelves s hmem)).1 hf⟩
  · rintro ⟨s, hmem, rfl, hp⟩
    exact ⟨s, h.shelf?_eq hmem rfl, (Shelf.find?_eq_some_iff (h.shelves s hmem)).2 hp⟩

/-- What is found is on the shelf at the address. -/
theorem find?_of_shelf? {s : Shelf κ α} (hs : c.shelf? loader = some s) (key : κ) :
    c.find? loader key = s.find? key := by
  rw [find?, hs, Option.bind_some]

/-- A key without an artifact has no place on the shelf at the address. -/
theorem Settled.lookup_eq_none (h : c.Settled) {s : Shelf κ α} (hs : c.shelf? loader = some s)
    (hf : c.find? loader key = none) : s.places.lookup key = none :=
  (h.shelves s (shelf?_eq_some hs).1).lookup_eq_none ((find?_of_shelf? hs key).symm.trans hf)

theorem reserve_eq_self (h : c.Settled) (hf : (c.find? loader key).isSome) :
    c.reserve loader key = c := by
  cases hs : c.shelf? loader with
  | none => simp [find?, hs] at hf
  | some s =>
    rw [find?_of_shelf? hs] at hf
    have hkeep : s.reserve key = id s := Shelf.reserve_eq_self hf
    rw [reserve, hs, h.modifyShelf_congr hs hkeep, modifyShelf_id]

/-- While its place is reserved there is no artifact for a key. -/
theorem find?_reserve (hf : c.find? loader key = none) :
    (c.reserve loader key).find? loader key = none := by
  cases hs : c.shelf? loader with
  | none =>
    rw [find?, reserve, hs, shelf?_cons_self rfl]
    simp [Shelf.find?]
  | some s =>
    have hafter : (c.reserve loader key).shelf? loader = some (s.reserve key) := by
      rw [reserve, hs, shelf?_modifyShelf fun s => s.reserve_loader, hs, Option.map_some]
    rw [find?_of_shelf? hs] at hf
    rw [find?_of_shelf? hafter, Shelf.find?_reserve hf]

/-- **A success is stored.** -/
theorem settle_reserve_ok {ε : Type} (h : c.Settled) (hf : c.find? loader key = none) :
    (c.reserve loader key).settle loader key (.ok a : Except ε α) = c.store loader key a := by
  cases hs : c.shelf? loader with
  | none =>
    simp only [reserve, store, hs, settle]
    rw [modifyShelf_cons_self _ _ rfl, modifyShelf_of_shelf?_eq_none hs]
    simp [Shelf.fill]
  | some s =>
    simp only [reserve, store, hs, settle]
    rw [modifyShelf_modifyShelf fun s => s.reserve_loader]
    exact h.modifyShelf_congr hs (Shelf.fill_reserve (h.lookup_eq_none hs hf))

/-- **A failure leaves no trace.** -/
theorem settle_reserve_error {ε : Type} {e : ε} (h : c.Settled)
    (hf : c.find? loader key = none) :
    (c.reserve loader key).settle loader key (.error e : Except ε α) = c := by
  -- no shelf was empty, so only one that was put up for the place can be taken down
  have hkeep : (c.shelves.filter fun s => s.loader.address ≠ loader.address || !s.places.isEmpty) =
      c.shelves :=
    List.filter_eq_self.2 fun s hs => by simp [(h.shelves s hs).nonempty]
  cases hs : c.shelf? loader with
  | none =>
    simp only [reserve, hs, settle, giveUp]
    rw [modifyShelf_cons_self _ _ rfl, modifyShelf_of_shelf?_eq_none hs]
    rw [List.filter_cons_of_neg (by simp [Shelf.vacate]), hkeep]
  | some s =>
    have hback : (s.reserve key).vacate key = id s :=
      Shelf.vacate_reserve (h.lookup_eq_none hs hf)
    simp only [reserve, hs, settle, giveUp]
    rw [modifyShelf_modifyShelf fun s => s.reserve_loader,
      h.modifyShelf_congr (g := id) hs hback, modifyShelf_id, hkeep]

theorem Settled.store (h : c.Settled) (hf : c.find? loader key = none) (a : α) :
    (c.store loader key a).Settled := by
  unfold Cache.store
  split
  · next s hs =>
    refine ⟨?_, fun t ht => ?_⟩
    · have hsame : ((fun s : Shelf κ α => s.loader.address) ∘
          fun s => if s.loader.address = loader.address then s.store key a else s) =
          fun s => s.loader.address := by
        funext s
        simp only [Function.comp_apply]
        split <;> rfl
      rw [modifyShelf, List.map_map, hsame]
      exact h.addresses_nodup
    · obtain ⟨u, hu, rfl⟩ := mem_modifyShelf.1 ht
      split
      · next hua =>
        rw [find?_of_shelf? (h.shelf?_eq hu hua)] at hf
        exact (h.shelves u hu).store hf a
      · exact h.shelves u hu
  · next hs =>
    refine ⟨List.nodup_cons.2 ⟨fun hmem => ?_, h.addresses_nodup⟩,
      List.forall_mem_cons.2 ⟨Shelf.settled_singleton loader key a, h.shelves⟩⟩
    obtain ⟨s, hs', ha⟩ := List.mem_map.1 hmem
    exact shelf?_eq_none hs s hs' ha

/-! ## Asking -/

/-- With what a creation gave, for a key that has no place. -/
def record {ε : Type} (c : Cache κ α) (loader : Loader) (key : κ) : Except ε α → Cache κ α
  | .ok a => c.store loader key a
  | .error _ => c

theorem settle_reserve {ε : Type} (h : c.Settled) (hf : c.find? loader key = none)
    (result : Except ε α) :
    (c.reserve loader key).settle loader key result = c.record loader key result := by
  cases result with
  | ok a => exact settle_reserve_ok h hf
  | error e => exact settle_reserve_error h hf

variable {ε : Type} {m : Type → Type} [Monad m] [LawfulMonad m]

/-- **What is there is returned**, and creation does not run. -/
theorem run_getOrCreate_of_some (h : c.Settled)
    (hf : (c.dropGone live).find? loader key = some a)
    (create : StateT (Cache κ α) m (Except ε α)) :
    (getOrCreate live loader key create).run c = pure (.ok a, c.dropGone live) := by
  have hkeep := reserve_eq_self (h.dropGone live) (Option.isSome_of_eq_some hf)
  simp [getOrCreate, hkeep, hf]

/-- **What is not there is created**, once, and recorded. -/
theorem run_getOrCreate_of_none (h : c.Settled) (hf : (c.dropGone live).find? loader key = none)
    (create : m (Except ε α)) :
    (getOrCreate live loader key (StateT.lift create)).run c =
      create >>= fun result => pure (result, (c.dropGone live).record loader key result) := by
  simp [getOrCreate, find?_reserve hf, settle_reserve (h.dropGone live) hf]

end Cache

end Provider

end ProxyForge
