/-!
# Caches

At most one artifact for each loader and key. A cache does not keep a loader alive: it finds
loaders by their addresses and holds them weakly, and what it has for a loader that is gone is
dropped before anything is looked up. So a loader at an address that was used before never sees
what was there.

A request for a key without an artifact reserves a place, then creates, then settles the place:
with the artifact, or, if there is none, by giving the place up.
-/

namespace ProxyForge

namespace Provider

/-- A loader. No two have one serial number. Those that live at one time have different addresses,
but the address of one that is gone may be given to another. -/
structure Loader where
  address : Nat
  serial : Nat
  deriving DecidableEq, Repr

/-- What a cache has for a loader: a place for each key, without an artifact while it is created. -/
structure Shelf (κ α : Type) where
  /-- Held weakly. -/
  loader : Loader
  places : List (κ × Option α)
  deriving Repr

namespace Shelf

variable {κ α : Type} [DecidableEq κ]

/-- The artifact for a key. -/
def find? (s : Shelf κ α) (key : κ) : Option α :=
  (s.places.lookup key).join

/-- With a place for a key, if there was none. -/
def reserve (s : Shelf κ α) (key : κ) : Shelf κ α :=
  match s.places.lookup key with
  | some _ => s
  | none => { s with places := (key, none) :: s.places }

/-- With an artifact in the place for a key. -/
def fill (s : Shelf κ α) (key : κ) (artifact : α) : Shelf κ α :=
  { s with places := s.places.map fun p => if p.1 = key then (key, some artifact) else p }

/-- Without the place for a key. -/
def vacate (s : Shelf κ α) (key : κ) : Shelf κ α :=
  { s with places := s.places.filter fun p => p.1 ≠ key }

/-- The number of artifacts. -/
def size (s : Shelf κ α) : Nat :=
  s.places.countP fun p => p.2.isSome

end Shelf

/-- Artifacts by loader and key. -/
structure Cache (κ α : Type) where
  /-- One for each address. -/
  shelves : List (Shelf κ α)
  deriving Repr

namespace Cache

variable {κ α : Type}

/-- A cache without artifacts. -/
def empty : Cache κ α := ⟨[]⟩

instance : Inhabited (Cache κ α) := ⟨empty⟩

/-- Without the shelves of loaders that are gone. -/
def dropGone (live : Loader → Bool) (c : Cache κ α) : Cache κ α :=
  ⟨c.shelves.filter fun s => live s.loader⟩

/-- The shelf at the address of a loader. -/
def shelf? (c : Cache κ α) (loader : Loader) : Option (Shelf κ α) :=
  c.shelves.find? fun s => s.loader.address = loader.address

/-- With a change to the shelf at the address of a loader. -/
def modifyShelf (c : Cache κ α) (loader : Loader) (f : Shelf κ α → Shelf κ α) : Cache κ α :=
  ⟨c.shelves.map fun s => if s.loader.address = loader.address then f s else s⟩

variable [DecidableEq κ]

/-- The artifact for a loader and a key. -/
def find? (c : Cache κ α) (loader : Loader) (key : κ) : Option α :=
  (c.shelf? loader).bind fun s => s.find? key

/-- With a place for a loader and a key. -/
def reserve (c : Cache κ α) (loader : Loader) (key : κ) : Cache κ α :=
  match c.shelf? loader with
  | some _ => c.modifyShelf loader fun s => s.reserve key
  | none => ⟨⟨loader, [(key, none)]⟩ :: c.shelves⟩

/-- Without the place for a loader and a key, and without the shelf if nothing else is on it. -/
def giveUp (c : Cache κ α) (loader : Loader) (key : κ) : Cache κ α :=
  let c := c.modifyShelf loader fun s => s.vacate key
  ⟨c.shelves.filter fun s => s.loader.address ≠ loader.address || !s.places.isEmpty⟩

/-- What becomes of a reserved place. -/
def settle {ε : Type} (c : Cache κ α) (loader : Loader) (key : κ) : Except ε α → Cache κ α
  | .ok artifact => c.modifyShelf loader fun s => s.fill key artifact
  | .error _ => c.giveUp loader key

/-! ## Requests -/

/-- The artifact for a loader and a key, if there is one. -/
def get? (live : Loader → Bool) (loader : Loader) (key : κ) (c : Cache κ α) :
    Option α × Cache κ α :=
  let c := c.dropGone live
  (c.find? loader key, c)

/-- The artifact for a loader and a key, which is created if there is none. Creation may use the
cache, for other keys. -/
def getOrCreate {ε : Type} {m : Type → Type} [Monad m] (live : Loader → Bool) (loader : Loader)
    (key : κ) (create : StateT (Cache κ α) m (Except ε α)) :
    StateT (Cache κ α) m (Except ε α) := do
  let c := ((← get).dropGone live).reserve loader key
  set c
  match c.find? loader key with
  | some artifact => return .ok artifact
  | none =>
    let result ← create
    modify fun c => c.settle loader key result
    return result

/-- The number of artifacts for loaders that are alive. -/
def size (live : Loader → Bool) (c : Cache κ α) : Nat :=
  (c.dropGone live).shelves.foldl (fun n s => n + s.size) 0

/-- The number of loaders, alive, that have a place in the cache. -/
def shelfCount (live : Loader → Bool) (c : Cache κ α) : Nat :=
  (c.dropGone live).shelves.length

end Cache

end Provider

end ProxyForge
