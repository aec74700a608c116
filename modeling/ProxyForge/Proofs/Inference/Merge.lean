import Mathlib.Algebra.Ring.Nat
import ProxyForge.Proofs.Inference.Order
/-!
# Where ways meet

`TypeState.merge` gives the least upper bound of two states or fails: it fails on stacks of
different heights and on values that agree on nothing. It reports a change exactly when the first
state lost something (`le_of_merge_unchanged`, `rank_lt_of_merge_changed`).
-/

namespace ProxyForge

namespace Code

namespace TypeState

open SlotType (top)

variable {s t m u : TypeState} {changed : Bool} {offset : Nat} {a b c : List SlotType}

/-! ## Stacks -/

theorem zipWith_merge_upper (h : a.length = b.length) :
    List.Forall₂ (· ≤ ·) a (List.zipWith SlotType.merge a b) ∧
      List.Forall₂ (· ≤ ·) b (List.zipWith SlotType.merge a b) := by
  induction a generalizing b with
  | nil =>
    cases b with
    | nil => exact ⟨.nil, .nil⟩
    | cons y b => simp at h
  | cons x a ih =>
    cases b with
    | nil => simp at h
    | cons y b =>
      obtain ⟨ha, hb⟩ := ih (b := b) (by simpa using h)
      exact ⟨.cons (SlotType.le_merge_left x y) ha, .cons (SlotType.le_merge_right x y) hb⟩

theorem zipWith_merge_le (ha : List.Forall₂ (· ≤ ·) a c) (hb : List.Forall₂ (· ≤ ·) b c) :
    List.Forall₂ (· ≤ ·) (List.zipWith SlotType.merge a b) c := by
  induction ha generalizing b with
  | nil =>
    cases hb
    exact .nil
  | cons hx _ ih =>
    cases hb with
    | cons hy htail => exact .cons (SlotType.merge_le hx hy) (ih htail)

/-- Below a stack without `top` lie stacks without it. -/
theorem top_notMem_of_le (h : List.Forall₂ (· ≤ ·) a b) (hb : top ∉ b) : top ∉ a := by
  induction h with
  | nil => exact hb
  | cons hxy _ ih =>
    simp only [List.mem_cons, not_or] at hb ⊢
    refine ⟨?_, ih hb.2⟩
    rintro rfl
    exact hb.1 (SlotType.eq_top_of_le hxy).symm

/-! ## What merging does -/

/-- **The result of a merge**, and when there is one. -/
theorem merge_eq_ok_iff : s.merge offset t = .ok (m, changed) ↔
    s.stack.length = t.stack.length ∧ top ∉ m.stack ∧
      m = ⟨mergeLocals s.locals t.locals, List.zipWith SlotType.merge s.stack t.stack⟩ ∧
      changed = (differ s.stack m.stack || differ s.locals m.locals) := by
  have htop : (List.zipWith SlotType.merge s.stack t.stack).any (· = top) = true ↔
      top ∈ List.zipWith SlotType.merge s.stack t.stack := by
    simp
  unfold merge mergeStack
  by_cases hlen : s.stack.length = t.stack.length
  · by_cases hany : top ∈ List.zipWith SlotType.merge s.stack t.stack
    · rw [if_neg (not_not.2 hlen), if_pos (htop.2 hany)]
      constructor
      · intro h
        cases h
      · rintro ⟨-, hno, rfl, -⟩
        exact absurd hany hno
    · rw [if_neg (not_not.2 hlen), if_neg (mt htop.1 hany)]
      constructor
      · intro h
        cases h
        exact ⟨hlen, hany, rfl, rfl⟩
      · rintro ⟨-, -, rfl, rfl⟩
        rfl
  · rw [if_pos hlen]
    constructor
    · intro h
      cases h
    · rintro ⟨h, -⟩
      exact absurd h hlen

theorem le_of_merge_left (h : s.merge offset t = .ok (m, changed)) : s ≤ m := by
  obtain ⟨hlen, -, rfl, -⟩ := merge_eq_ok_iff.1 h
  refine ⟨fun i => ?_, (zipWith_merge_upper hlen).1⟩
  rw [slotAt_mergeLocals]
  exact le_sup_left

theorem le_of_merge_right (h : s.merge offset t = .ok (m, changed)) : t ≤ m := by
  obtain ⟨hlen, -, rfl, -⟩ := merge_eq_ok_iff.1 h
  refine ⟨fun i => ?_, (zipWith_merge_upper hlen).2⟩
  rw [slotAt_mergeLocals]
  exact le_sup_right

/-- **Merging is least** among the states above both. -/
theorem merge_le (h : s.merge offset t = .ok (m, changed)) (hs : s ≤ u) (ht : t ≤ u) : m ≤ u := by
  obtain ⟨-, -, rfl, -⟩ := merge_eq_ok_iff.1 h
  refine ⟨fun i => ?_, zipWith_merge_le hs.stack ht.stack⟩
  rw [slotAt_mergeLocals]
  exact sup_le (hs.locals i) (ht.locals i)

/-- Two states merge if some state without `top` on its stack is above both. -/
theorem exists_merge (offset : Nat) (hs : s ≤ u) (ht : t ≤ u) (hu : top ∉ u.stack) :
    ∃ m changed, s.merge offset t = .ok (m, changed) := by
  refine ⟨_, _, merge_eq_ok_iff.2 ⟨?_, ?_, rfl, rfl⟩⟩
  · rw [hs.stack.length_eq, ht.stack.length_eq]
  · -- a `top` in the merged stack would lie below one in `u`
    exact top_notMem_of_le (zipWith_merge_le hs.stack ht.stack) hu

theorem length_stack_of_merge (h : s.merge offset t = .ok (m, changed)) :
    m.stack.length = s.stack.length :=
  (le_of_merge_left h).stack.length_eq.symm

/-! ## Changes -/

/-- Lists that do not differ agree where both have something. -/
theorem getElem?_eq_of_differ_eq_false (h : differ a b = false) {i : Nat} (ha : i < a.length)
    (hb : i < b.length) : a[i]? = b[i]? := by
  induction a generalizing b i with
  | nil => simp at ha
  | cons x a ih =>
    cases b with
    | nil => simp at hb
    | cons y b =>
      simp only [differ, List.zip_cons_cons, List.any_cons, Bool.or_eq_false_iff,
        decide_eq_false_iff_not, ne_eq, not_not] at h
      cases i with
      | zero => simp [h.1]
      | succ i =>
        simp only [List.getElem?_cons_succ]
        exact ih h.2 (by simpa using ha) (by simpa using hb)

theorem exists_ne_of_differ (h : differ a b = true) :
    ∃ i, ∃ (ha : i < a.length) (hb : i < b.length), a[i] ≠ b[i] := by
  induction a generalizing b with
  | nil => simp [differ] at h
  | cons x a ih =>
    cases b with
    | nil => simp [differ] at h
    | cons y b =>
      simp only [differ, List.zip_cons_cons, List.any_cons, Bool.or_eq_true,
        decide_eq_true_eq] at h
      rcases h with h | h
      · exact ⟨0, by simp, by simp, h⟩
      · obtain ⟨i, ha, hb, hne⟩ := ih h
        exact ⟨i + 1, by simpa using ha, by simpa using hb, by simpa using hne⟩

/-- **A merge without a change gives nothing new.** The merged locals may be longer, but nothing is
known of what was added. -/
theorem le_of_merge_unchanged (h : s.merge offset t = .ok (m, false)) : m ≤ s := by
  obtain ⟨hlen, -, hm, hch⟩ := merge_eq_ok_iff.1 h
  have hle := le_of_merge_left h
  obtain ⟨hstack, hlocals⟩ := Bool.or_eq_false_iff.1 hch.symm
  refine ⟨fun i => ?_, ?_⟩
  · rcases Nat.lt_or_ge i s.locals.length with hi | hi
    · have hi' : i < m.locals.length := by
        rw [hm, length_mergeLocals]
        omega
      have heq := getElem?_eq_of_differ_eq_false hlocals hi hi'
      simp only [slotAt, List.getD_eq_getElem?_getD, heq]
      exact le_refl _
    · -- of a slot beyond the old end nothing was known
      rw [slotAt_of_length_le hi]
      exact SlotType.le_top _
  · have heq : m.stack = s.stack := by
      refine List.ext_getElem? fun i => ?_
      rcases Nat.lt_or_ge i s.stack.length with hi | hi
      · exact (getElem?_eq_of_differ_eq_false hstack hi (hle.stack.length_eq ▸ hi)).symm
      · rw [List.getElem?_eq_none hi, List.getElem?_eq_none (hle.stack.length_eq ▸ hi)]
    rw [heq]
    exact List.forall₂_refl _

/-! ## Height -/

/-- How often values on a stack can still lose something. None of them can become `top`. -/
def stackRank (stack : List SlotType) : Nat :=
  (stack.map fun t => t.rank - 1).sum

/-- How often the first `bound` local variables can still lose something. -/
def localsRank (bound : Nat) (locals : List SlotType) : Nat :=
  ((List.range bound).map fun i => (slotAt locals i).rank).sum

/-- How often a state with at most `bound` local variables can still lose something. -/
def rank (bound : Nat) (s : TypeState) : Nat :=
  stackRank s.stack + localsRank bound s.locals

theorem stackRank_le_length (stack : List SlotType) : stackRank stack ≤ 2 * stack.length := by
  induction stack with
  | nil => simp [stackRank]
  | cons t stack ih =>
    have := t.rank_le
    simp only [stackRank, List.map_cons, List.sum_cons, List.length_cons] at ih ⊢
    omega

theorem localsRank_le (bound : Nat) (locals : List SlotType) :
    localsRank bound locals ≤ 3 * bound := by
  induction bound with
  | zero => simp [localsRank]
  | succ n ih =>
    have := (slotAt locals n).rank_le
    simp only [localsRank, List.range_succ, List.map_append, List.map_cons, List.map_nil,
      List.sum_append, List.sum_cons, List.sum_nil] at ih ⊢
    omega

theorem stackRank_le_of_le (h : List.Forall₂ (· ≤ ·) a b) : stackRank b ≤ stackRank a := by
  induction h with
  | nil => exact le_refl _
  | cons hxy _ ih =>
    have := SlotType.rank_le_of_le hxy
    simp only [stackRank, List.map_cons, List.sum_cons] at ih ⊢
    omega

theorem localsRank_le_of_le (bound : Nat) (h : ∀ i, slotAt a i ≤ slotAt b i) :
    localsRank bound b ≤ localsRank bound a := by
  induction bound with
  | zero => simp [localsRank]
  | succ n ih =>
    have := SlotType.rank_le_of_le (h n)
    simp only [localsRank, List.range_succ, List.map_append, List.map_cons, List.map_nil,
      List.sum_append, List.sum_cons, List.sum_nil] at ih ⊢
    omega

theorem rank_le_of_le (bound : Nat) (h : s ≤ t) : t.rank bound ≤ s.rank bound :=
  Nat.add_le_add (stackRank_le_of_le h.stack) (localsRank_le_of_le bound h.locals)

/-- A stack that lost something has less to lose, unless a value became `top`. -/
theorem stackRank_lt (h : List.Forall₂ (· ≤ ·) a b) (hb : top ∉ b)
    (hne : ∃ i, ∃ (ha : i < a.length) (hb : i < b.length), a[i] ≠ b[i]) :
    stackRank b < stackRank a := by
  induction h with
  | nil =>
    obtain ⟨i, hi, -⟩ := hne
    simp at hi
  | @cons x y a b hxy htail ih =>
    simp only [List.mem_cons, not_or] at hb
    have hpos := SlotType.rank_pos (Ne.symm hb.1)
    have hle := stackRank_le_of_le htail
    have hxy' := SlotType.rank_le_of_le hxy
    obtain ⟨i, hi, hi', hne⟩ := hne
    cases i with
    -- the value that differs loses rank; it is not `top`, so the rank is counted
    | zero =>
      have hlt := SlotType.rank_lt_of_lt (lt_of_le_of_ne hxy hne)
      simp only [stackRank, List.map_cons, List.sum_cons] at hle ⊢
      omega
    | succ i =>
      have := ih hb.2 ⟨i, by simpa using hi, by simpa using hi', by simpa using hne⟩
      simp only [stackRank, List.map_cons, List.sum_cons] at this ⊢
      omega

/-- Locals that lost something within the bound have less to lose. -/
theorem localsRank_lt {bound : Nat} (i : Nat) (h : ∀ i, slotAt a i ≤ slotAt b i) (hi : i < bound)
    (hne : slotAt a i ≠ slotAt b i) : localsRank bound b < localsRank bound a := by
  induction bound with
  | zero => exact absurd hi (Nat.not_lt_zero _)
  | succ n ih =>
    have hn := SlotType.rank_le_of_le (h n)
    have hle := localsRank_le_of_le n h
    simp only [localsRank, List.range_succ, List.map_append, List.map_cons, List.map_nil,
      List.sum_append, List.sum_cons, List.sum_nil] at ih hle ⊢
    rcases Nat.lt_or_ge i n with hlt | hge
    · have := ih hlt
      omega
    · -- the slot that differs is the last one that is counted
      obtain rfl : i = n := by omega
      have := SlotType.rank_lt_of_lt (lt_of_le_of_ne (h i) hne)
      omega

/-- **A merge that reports a change brings the state closer to its end.** -/
theorem rank_lt_of_merge_changed {bound : Nat} (h : s.merge offset t = .ok (m, true))
    (hbound : s.locals.length ≤ bound) : m.rank bound < s.rank bound := by
  obtain ⟨-, htop, -, hch⟩ := merge_eq_ok_iff.1 h
  have hle := le_of_merge_left h
  have hstack := stackRank_le_of_le hle.stack
  have hlocals := localsRank_le_of_le bound hle.locals
  unfold rank
  -- one part lost something, and the other one gained nothing
  rcases Bool.or_eq_true_iff.1 hch.symm with hd | hd
  · have := stackRank_lt hle.stack htop (exists_ne_of_differ hd)
    omega
  · obtain ⟨i, hi, hi', hne⟩ := exists_ne_of_differ hd
    have := localsRank_lt i hle.locals (show i < bound by omega)
      (by
        rw [slotAt_of_getElem? (List.getElem?_eq_getElem hi),
          slotAt_of_getElem? (List.getElem?_eq_getElem hi')]
        exact hne)
    omega

end TypeState

end Code

end ProxyForge
