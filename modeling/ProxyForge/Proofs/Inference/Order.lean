import Mathlib.Order.Lattice
import Mathlib.Data.List.Forall2
import ProxyForge.Code.TypeState
/-!
# The order of what is known

One slot type is below another if it says more: `null` is below every object, an object is below
the root of all classes, and everything is below `top`. `SlotType.merge` is the least upper bound
of this order. Locals are compared slot by slot, a slot that is missing counting as `top`, and
stacks value by value; `TypeState.merge` is the least upper bound of that.
-/

namespace ProxyForge

namespace Code

namespace SlotType

/-- **The order of slot types.** The smaller one says at least as much. -/
inductive Below : SlotType → SlotType → Prop
  | refl (t : SlotType) : Below t t
  /-- Nothing is known of the larger one. -/
  | top (t : SlotType) : Below t top
  /-- The null reference is an object of every class. -/
  | null (name : String) : Below null (object name)
  /-- Every object is one of the root class. -/
  | root (name : String) : Below (object name) (object objectClass)

variable {a b c : SlotType}

/-- Two types are below what is merged from them. -/
theorem below_merge (a b : SlotType) : Below a (merge a b) ∧ Below b (merge a b) := by
  unfold merge
  split
  · rename_i h
    exact ⟨.refl a, h ▸ .refl a⟩
  · split
    · exact ⟨.null _, .refl _⟩
    · exact ⟨.refl _, .null _⟩
    · exact ⟨.root _, .root _⟩
    · exact ⟨.top _, .top _⟩

/-- What is above two types is above what is merged from them. -/
theorem merge_below (ha : Below a c) (hb : Below b c) : Below (merge a b) c := by
  unfold merge
  split
  · exact ha
  · rename_i hne
    -- the sides differ, so one rule at least leads up to `c`
    cases ha with
    | refl =>
      cases hb with
      | refl => exact absurd rfl hne
      | top => exact .top _
      | null name => exact .refl _
      | root name => exact .refl _
    | top => exact .top _
    | null name =>
      cases hb with
      | refl => exact .refl _
      | null name => exact absurd rfl hne
      | root name => exact .root _
    | root name =>
      cases hb with
      | refl => exact .refl _
      | null name => exact .root _
      | root name' => exact .refl _

theorem Below.trans (h : Below a b) (h' : Below b c) : Below a c := by
  cases h with
  | refl => exact h'
  | top => cases h' <;> exact .top _
  | null name =>
    cases h' with
    | refl => exact .null _
    | top => exact .top _
    | root name => exact .null _
  | root name =>
    cases h' with
    | refl => exact .root _
    | top => exact .top _
    | root name => exact .root _

theorem Below.antisymm (h : Below a b) (h' : Below b a) : a = b := by
  cases h with
  | refl => rfl
  | top => cases h' <;> rfl
  | null name => cases h'
  | root name => cases h' <;> rfl

/-- **Merging is the least upper bound** of the order. -/
instance : SemilatticeSup SlotType where
  le := Below
  le_refl := .refl
  le_trans _ _ _ := .trans
  le_antisymm _ _ := Below.antisymm
  sup := merge
  le_sup_left a b := (below_merge a b).1
  le_sup_right a b := (below_merge a b).2
  sup_le _ _ _ := merge_below

theorem le_merge_left (a b : SlotType) : a ≤ merge a b := le_sup_left

theorem le_merge_right (a b : SlotType) : b ≤ merge a b := le_sup_right

theorem merge_le (ha : a ≤ c) (hb : b ≤ c) : merge a b ≤ c := sup_le ha hb

theorem le_top (a : SlotType) : a ≤ top := .top a

/-- Only `top` is above `top`. -/
theorem eq_top_of_le (h : top ≤ a) : a = top := by
  cases h <;> rfl

/-! ## What the order keeps -/

/-- Below a value of a kind lie values of that kind only. -/
theorem fits_of_le {kind : Kind} (h : a ≤ b) (hb : b.fits kind) : a.fits kind := by
  cases h with
  | refl => exact hb
  | top => cases kind <;> simp [fits, isReference] at hb
  | null name => cases kind <;> simp_all [fits, isReference]
  | root name => cases kind <;> simp_all [fits, isReference]

/-- A value has some type. -/
theorem ne_top_of_fits {kind : Kind} (h : a.fits kind) : a ≠ top := by
  rintro rfl
  cases kind <;> simp [fits, isReference] at h

/-- Below a value lie values of the same width. -/
theorem isWide_eq_of_le (h : a ≤ b) (hb : b ≠ top) : a.isWide = b.isWide := by
  cases h with
  | refl => rfl
  | top => exact absurd rfl hb
  | null name => rfl
  | root name => rfl

/-- A wide type is only below itself and `top`. -/
theorem eq_of_isWide_le (h : a ≤ b) (hb : b.isWide) : a = b := by
  cases h with
  | refl => rfl
  | top => simp [isWide] at hb
  | null name => simp [isWide] at hb
  | root name => simp [isWide] at hb

theorem slots_eq_of_le (h : a ≤ b) (hb : b ≠ top) : a.slots = b.slots := by
  unfold slots
  rw [isWide_eq_of_le h hb]

/-- A fresh object, on which no constructor was called yet? -/
def isFresh : SlotType → Bool
  | uninitializedThis => true
  | uninitialized _ _ => true
  | _ => false

/-- Below a fresh object lies only itself. -/
theorem eq_of_le_fresh (h : a ≤ b) (hb : b.isFresh) : a = b := by
  cases h with
  | refl => rfl
  | top => simp [isFresh] at hb
  | null name => simp [isFresh] at hb
  | root name => simp [isFresh] at hb

/-- Above a fresh object lie only itself and `top`. -/
theorem eq_or_top_of_fresh_le (h : a ≤ b) (ha : a.isFresh) : b = a ∨ b = top := by
  cases h with
  | refl => exact .inl rfl
  | top => exact .inr rfl
  | null name => simp [isFresh] at ha
  | root name => simp [isFresh] at ha

theorem ne_top_of_fresh (h : a.isFresh) : a ≠ top := by
  rintro rfl
  simp [isFresh] at h

/-! ## Height -/

/-- **How often a slot can still lose something.** -/
def rank : SlotType → Nat
  | top => 0
  | null => 3
  | object name => if name = objectClass then 1 else 2
  | _ => 1

theorem rank_le (a : SlotType) : a.rank ≤ 3 := by
  cases a <;> simp only [rank] <;> (try split) <;> omega

theorem rank_pos (h : a ≠ top) : 0 < a.rank := by
  cases a <;> simp only [rank] <;> (try split) <;> first | omega | exact absurd rfl h

/-- The rank falls on the way up. -/
theorem rank_lt_of_lt (h : a < b) : b.rank < a.rank := by
  obtain ⟨hle, hne⟩ := lt_iff_le_and_ne.1 h
  cases hle with
  | refl => exact absurd rfl hne
  | top => exact rank_pos hne
  | null name => simp only [rank]; split <;> omega
  | root name =>
    have : name ≠ objectClass := fun h => hne (by rw [h])
    simp [rank, this]

theorem rank_le_of_le (h : a ≤ b) : b.rank ≤ a.rank := by
  rcases eq_or_lt_of_le h with rfl | hlt
  · exact le_refl _
  · exact (rank_lt_of_lt hlt).le

end SlotType

namespace TypeState

open SlotType (top)

variable {s t u : TypeState} {locals locals' : List SlotType}

/-! ## Locals -/

/-- What is known of a local variable; nothing is of one beyond the end. -/
def slotAt (locals : List SlotType) (i : Nat) : SlotType :=
  locals.getD i top

theorem slotAt_of_getElem? {i : Nat} {a : SlotType} (h : locals[i]? = some a) :
    slotAt locals i = a := by
  simp [slotAt, h]

theorem slotAt_of_length_le {i : Nat} (h : locals.length ≤ i) : slotAt locals i = top := by
  simp [slotAt, List.getElem?_eq_none h]

/-- A slot of which something is known is there. -/
theorem getElem?_of_slotAt {i : Nat} (h : slotAt locals i ≠ top) :
    locals[i]? = some (slotAt locals i) := by
  unfold slotAt at h ⊢
  rcases hi : locals[i]? with - | a
  · simp [hi] at h
  · simp [hi]

@[simp] theorem slotAt_pad (n i : Nat) : slotAt (pad n locals) i = slotAt locals i := by
  unfold slotAt pad
  rcases Nat.lt_or_ge i locals.length with h | h
  · simp [List.getElem?_append_left h]
  · simp only [List.getD_eq_getElem?_getD, List.getElem?_append_right h,
      List.getElem?_eq_none h, List.getElem?_replicate]
    split <;> rfl

@[simp] theorem length_pad (n : Nat) : (pad n locals).length = max locals.length n := by
  simp only [pad, List.length_append, List.length_replicate]
  omega

theorem slotAt_set {i j : Nat} {a : SlotType} (h : i < locals.length) :
    slotAt (locals.set i a) j = if i = j then a else slotAt locals j := by
  unfold slotAt
  simp only [List.getD_eq_getElem?_getD, List.getElem?_set]
  split
  · simp
  · rfl

/-- Where nothing becomes known it does not matter whether the slot is there. -/
theorem slotAt_set_top (i j : Nat) :
    slotAt (locals.set i top) j = if i = j then top else slotAt locals j := by
  rcases Nat.lt_or_ge i locals.length with h | h
  · exact slotAt_set h
  · -- beyond the end nothing is stored, and nothing is known there anyway
    rw [List.set_eq_of_length_le h]
    split
    · rename_i hij
      exact slotAt_of_length_le (hij ▸ h)
    · rfl

theorem isWideAt_eq (i : Nat) : isWideAt locals i = (slotAt locals i).isWide := by
  unfold isWideAt slotAt
  rcases h : locals[i]? with - | a
  · simp [h, SlotType.isWide]
  · simp [h]

@[simp] theorem slotAt_mergeLocals (i : Nat) :
    slotAt (mergeLocals locals locals') i = slotAt locals i ⊔ slotAt locals' i := by
  have key : slotAt (mergeLocals locals locals') i =
      slotAt (pad locals'.length locals) i ⊔ slotAt (pad locals.length locals') i := by
    -- padded, both sides have one length: a slot is there on both or on neither
    have hlen : (pad locals'.length locals).length = (pad locals.length locals').length := by
      simp only [length_pad]
      omega
    unfold slotAt mergeLocals
    simp only [List.getD_eq_getElem?_getD, List.getElem?_zipWith]
    rcases Nat.lt_or_ge i (pad locals'.length locals).length with h | h
    · simp [List.getElem?_eq_getElem h, List.getElem?_eq_getElem (hlen ▸ h)]
      rfl
    · simp [List.getElem?_eq_none h, List.getElem?_eq_none (hlen ▸ h)]
  simpa using key

@[simp] theorem length_mergeLocals :
    (mergeLocals locals locals').length = max locals.length locals'.length := by
  simp only [mergeLocals, List.length_zipWith, length_pad]
  omega

/-! ## States -/

theorem stack_trans {a b c : List SlotType} (h : List.Forall₂ (· ≤ ·) a b)
    (h' : List.Forall₂ (· ≤ ·) b c) : List.Forall₂ (· ≤ ·) a c := by
  induction h generalizing c with
  | nil => exact h'
  | cons hab _ ih =>
    cases h' with
    | cons hbc htail => exact .cons (le_trans hab hbc) (ih htail)

/-- **The order of states.** The smaller one says at least as much of every local variable and of
every value on the stack. -/
structure Below (s t : TypeState) : Prop where
  locals : ∀ i, slotAt s.locals i ≤ slotAt t.locals i
  stack : List.Forall₂ (· ≤ ·) s.stack t.stack

instance : Preorder TypeState where
  le := Below
  le_refl s := ⟨fun _ => le_refl _, List.forall₂_refl _⟩
  le_trans _ _ _ h h' :=
    ⟨fun i => le_trans (h.locals i) (h'.locals i), stack_trans h.stack h'.stack⟩

end TypeState

end Code

end ProxyForge
