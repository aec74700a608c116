import ProxyForge.Proofs.Layout.Labels
/-!
# Blocks

Bodies are written block by block: instructions one behind the other, with a label in front of the
first one or none. The label of a block stands for the position of its first instruction
(`Block.positions_label`), and the labels of a body can be resolved if its jumps and handlers lead
to blocks (`Block.exists_resolve`).
-/

namespace ProxyForge

namespace Code

open Outcome

/-- Instructions one behind the other, and the label in front of them. -/
structure Block where
  label : Option Label
  ops : List (Op Label)

namespace Body

/-! ## Lines -/

theorem opsOf_straight (ops : List (Op Label)) : opsOf (Line.straight ops) = ops := by
  unfold opsOf Line.straight
  rw [List.filterMap_map]
  exact List.filterMap_some

theorem opsOf_block (label : Label) (ops : List (Op Label)) :
    opsOf (Line.block label ops) = ops :=
  opsOf_straight ops

theorem opsOf_append (xs ys : List Line) : opsOf (xs ++ ys) = opsOf xs ++ opsOf ys :=
  List.filterMap_append

theorem positionsFrom_append (position : Nat) (bound : Std.HashMap Label Nat)
    (xs ys : List Line) : positionsFrom position bound (xs ++ ys) =
      positionsFrom (position + (opsOf xs).length) (positionsFrom position bound xs) ys := by
  induction xs generalizing position bound with
  | nil => rfl
  | cons x xs ih =>
    cases x with
    | op op =>
      rw [List.cons_append, positionsFrom, positionsFrom, ih]
      congr 1
      change position + 1 + (opsOf xs).length = position + ((opsOf xs).length + 1)
      omega
    | mark label => exact ih _ _

theorem positionsFrom_straight (position : Nat) (bound : Std.HashMap Label Nat)
    (ops : List (Op Label)) : positionsFrom position bound (Line.straight ops) = bound := by
  induction ops generalizing position with
  | nil => rfl
  | cons op ops ih => exact ih _

end Body

namespace Block

/-- The lines of a block. -/
def lines (b : Block) : List Line :=
  match b.label with
  | none => Line.straight b.ops
  | some label => Line.block label b.ops

/-- The lines of blocks. -/
def linesOf (bs : List Block) : List Line :=
  bs.flatMap lines

/-- The instructions of blocks. -/
def opsOf (bs : List Block) : List (Op Label) :=
  bs.flatMap ops

/-- The labels of blocks, in their order. -/
def labelsOf (bs : List Block) : List Label :=
  bs.filterMap label

/-- The number of instructions. -/
def size (bs : List Block) : Nat :=
  (opsOf bs).length

variable {b : Block} {bs cs pre mid post : List Block} {label : Label} {body : Body}

@[simp] theorem opsOf_append : opsOf (bs ++ cs) = opsOf bs ++ opsOf cs :=
  List.flatMap_append

@[simp] theorem opsOf_cons : opsOf (b :: bs) = b.ops ++ opsOf bs := rfl

@[simp] theorem size_append : size (bs ++ cs) = size bs + size cs := by
  unfold size
  rw [opsOf_append, List.length_append]

@[simp] theorem size_cons : size (b :: bs) = b.ops.length + size bs :=
  List.length_append

theorem labelsOf_append : labelsOf (bs ++ cs) = labelsOf bs ++ labelsOf cs :=
  List.filterMap_append

theorem mem_labelsOf : label ∈ labelsOf bs ↔ ∃ b ∈ bs, b.label = some label :=
  List.mem_filterMap

/-- Blocks of which none is empty take positions. -/
theorem size_pos (hne : ∀ b ∈ bs, b.ops ≠ []) (hbs : bs ≠ []) : 0 < size bs := by
  obtain ⟨b, bs, rfl⟩ := List.exists_cons_of_ne_nil hbs
  have := List.length_pos_of_ne_nil (hne b List.mem_cons_self)
  rw [size_cons]
  omega

/-! ## Positions -/

theorem opsOf_lines (b : Block) : Body.opsOf b.lines = b.ops := by
  unfold lines
  split
  · exact Body.opsOf_straight b.ops
  · exact Body.opsOf_block _ b.ops

/-- **The instructions of a body** are those of its blocks. -/
theorem opsOf_linesOf (bs : List Block) : Body.opsOf (linesOf bs) = opsOf bs := by
  induction bs with
  | nil => rfl
  | cons b bs ih =>
    rw [opsOf_cons, ← ih, ← opsOf_lines b]
    exact Body.opsOf_append _ _

theorem ops_eq (hlines : body.lines = linesOf bs) : body.ops = opsOf bs := by
  rw [Body.ops, hlines, opsOf_linesOf]

/-- What a block does to the positions of labels. -/
theorem positionsFrom_lines (position : Nat) (bound : Std.HashMap Label Nat) (b : Block) :
    Body.positionsFrom position bound b.lines =
      match b.label with
      | none => bound
      | some label => bound.insert label position := by
  unfold lines
  split
  · exact Body.positionsFrom_straight _ _ _
  · exact Body.positionsFrom_straight _ _ _

/-- Blocks leave the labels of other blocks where they are. -/
theorem positionsFrom_of_not_mem (position : Nat) (bound : Std.HashMap Label Nat)
    (h : label ∉ labelsOf bs) :
    (Body.positionsFrom position bound (linesOf bs))[label]? = bound[label]? := by
  induction bs generalizing position bound with
  | nil => rfl
  | cons b bs ih =>
    have hb : b.label ≠ some label := fun heq =>
      h (mem_labelsOf.2 ⟨b, List.mem_cons_self, heq⟩)
    have hbs : label ∉ labelsOf bs := fun hmem => by
      obtain ⟨c, hc, heq⟩ := mem_labelsOf.1 hmem
      exact h (mem_labelsOf.2 ⟨c, List.mem_cons_of_mem b hc, heq⟩)
    change (Body.positionsFrom position bound (b.lines ++ linesOf bs))[label]? = _
    rw [Body.positionsFrom_append, ih _ _ hbs, positionsFrom_lines]
    split
    · rfl
    · rename_i label' heq
      have hne : (label' == label) = false :=
        beq_false_of_ne fun h => hb (heq.trans (congrArg some h))
      rw [Std.HashMap.getElem?_insert, hne]
      rfl

/-- **The label of a block has the position of its first instruction.** -/
theorem positions_label (hlines : body.lines = linesOf (pre ++ b :: post))
    (hnodup : (labelsOf (pre ++ b :: post)).Nodup) (hlabel : b.label = some label) :
    body.positions[label]? = some (size pre) := by
  have hpost : label ∉ labelsOf post := by
    have hcons : labelsOf (b :: post) = label :: labelsOf post := by
      unfold labelsOf
      rw [List.filterMap_cons, hlabel]
    rw [labelsOf_append, hcons] at hnodup
    exact (List.nodup_cons.1 (List.nodup_append.1 hnodup).2.1).1
  have hsplit : linesOf (pre ++ b :: post) = linesOf pre ++ (b.lines ++ linesOf post) :=
    List.flatMap_append
  rw [Body.positions, hlines, hsplit, Body.positionsFrom_append, Body.positionsFrom_append,
    positionsFrom_of_not_mem _ _ hpost, positionsFrom_lines, hlabel]
  dsimp only
  rw [Std.HashMap.getElem?_insert_self, opsOf_linesOf, Nat.zero_add]
  rfl

/-- Blocks that stand at one place are one block. -/
theorem eq_of_size_eq {c : Block} {pre' post' : List Block} (hne : ∀ b ∈ bs, b.ops ≠ [])
    (hb : bs = pre ++ b :: post) (hc : bs = pre' ++ c :: post') (hsize : size pre = size pre') :
    b = c := by
  -- if one stood behind the other, there would be instructions in between
  have hbehind : ∀ {b c : Block} {pre mid post post' : List Block}, bs = pre ++ b :: post →
      pre ++ b :: post = pre ++ mid ++ c :: post' → size pre = size (pre ++ mid) → b = c := by
    intro b c pre mid post post' hbs hsplit hsize
    rw [List.append_assoc] at hsplit
    have hsplit := List.append_cancel_left hsplit
    cases mid with
    | nil => exact (List.cons.inj hsplit).1
    | cons d mid =>
      obtain ⟨rfl, -⟩ := List.cons.inj hsplit
      have hpos := List.length_pos_of_ne_nil (hne b (by rw [hbs]; simp))
      rw [size_append, size_cons] at hsize
      omega
  rcases List.append_eq_append_iff.1 (hb.symm.trans hc) with ⟨mid, rfl, hmid⟩ | ⟨mid, rfl, hmid⟩
  · exact hbehind hb (hb.symm.trans hc) hsize
  · exact (hbehind hc (hc.symm.trans hb) hsize.symm).symm

/-- **Labels of different blocks have different positions.** -/
theorem positions_injective (hlines : body.lines = linesOf bs) (hnodup : (labelsOf bs).Nodup)
    (hne : ∀ b ∈ bs, b.ops ≠ []) {label' : Label} (hlabel : label ∈ labelsOf bs)
    (hlabel' : label' ∈ labelsOf bs) (heq : body.positions[label]? = body.positions[label']?) :
    label = label' := by
  obtain ⟨b, hb, hbl⟩ := mem_labelsOf.1 hlabel
  obtain ⟨c, hc, hcl⟩ := mem_labelsOf.1 hlabel'
  obtain ⟨pre, post, hpre⟩ := List.append_of_mem hb
  obtain ⟨pre', post', hpre'⟩ := List.append_of_mem hc
  rw [positions_label (hpre ▸ hlines) (hpre ▸ hnodup) hbl,
    positions_label (hpre' ▸ hlines) (hpre' ▸ hnodup) hcl] at heq
  cases eq_of_size_eq hne hpre hpre' (Option.some.inj heq)
  exact Option.some.inj (hbl.symm.trans hcl)

/-- Every label of blocks is bound to an instruction. -/
theorem exists_position (hlines : body.lines = linesOf bs) (hnodup : (labelsOf bs).Nodup)
    (hne : ∀ b ∈ bs, b.ops ≠ []) (hmem : label ∈ labelsOf bs) :
    ∃ position, body.positions[label]? = some position ∧ position < body.ops.length := by
  obtain ⟨b, hb, hlabel⟩ := mem_labelsOf.1 hmem
  obtain ⟨pre, post, rfl⟩ := List.append_of_mem hb
  refine ⟨size pre, positions_label hlines hnodup hlabel, ?_⟩
  have := List.length_pos_of_ne_nil (hne b hb)
  rw [ops_eq hlines]
  change size pre < size (pre ++ b :: post)
  rw [size_append, size_cons]
  omega

/-! ## Resolving labels -/

/-- **A range of blocks that has a handler**: it begins at one block, ends in front of another one,
and the handler is a block. -/
structure Spans (bs : List Block) (h : Handler Label) (pre mid post : List Block) : Prop where
  blocks : bs = pre ++ (mid ++ post)
  start : ∃ b rest, mid = b :: rest ∧ b.label = some h.start
  stop : ∃ b rest, post = b :: rest ∧ b.label = some h.stop
  handler : h.handler ∈ labelsOf bs

/-- The positions of a range. -/
theorem Spans.positions {h : Handler Label} (hspans : Spans bs h pre mid post)
    (hlines : body.lines = linesOf bs) (hnodup : (labelsOf bs).Nodup) :
    body.positions[h.start]? = some (size pre) ∧
      body.positions[h.stop]? = some (size pre + size mid) := by
  obtain ⟨rfl, ⟨b, rest, rfl, hb⟩, ⟨c, rest', rfl, hc⟩, -⟩ := hspans
  refine ⟨positions_label hlines hnodup hb, ?_⟩
  rw [← List.append_assoc] at hlines hnodup
  rw [positions_label hlines hnodup hc, size_append]

/-- An instruction is resolved if its places are found. -/
theorem exists_resolve_op {L M ε : Type} {place : L → Except ε M} (op : Op L)
    (h : ∀ target ∈ op.targets, ∃ position, place target = .ok position) :
    ∃ op', op.resolve place = .ok op' := by
  cases op with
  | jump kind target =>
    obtain ⟨position, hposition⟩ := h target List.mem_cons_self
    exact ⟨_, bind_eq_ok.2 ⟨position, hposition, rfl⟩⟩
  | lookupSwitch fallback cases =>
    obtain ⟨position, hposition⟩ := h fallback List.mem_cons_self
    have hcase : ∀ c ∈ cases, ∃ c',
        (do return (c.1, ← place c.2) : Except ε (Int32 × M)) = .ok c' := by
      intro c hc
      obtain ⟨position, hposition⟩ := h c.2 (List.mem_cons_of_mem _ (List.mem_map_of_mem hc))
      exact ⟨_, bind_eq_ok.2 ⟨position, hposition, rfl⟩⟩
    obtain ⟨cases', hcases⟩ := exists_mapM hcase
    exact ⟨_, bind_eq_ok.2 ⟨position, hposition, bind_eq_ok.2 ⟨cases', hcases, rfl⟩⟩⟩
  | _ => exact ⟨_, rfl⟩

/-- **Labels are resolved** if no block is empty, no two have one label, and jumps and handlers
lead to blocks. -/
theorem exists_resolve (hlines : body.lines = linesOf bs) (hnodup : (labelsOf bs).Nodup)
    (hne : ∀ b ∈ bs, b.ops ≠ [])
    (htargets : ∀ op ∈ opsOf bs, ∀ target ∈ op.targets, target ∈ labelsOf bs)
    (hhandlers : ∀ h ∈ body.handlers, ∃ pre mid post, Spans bs h pre mid post) :
    ∃ p, body.resolve = .ok p := by
  have hops : ∀ entry ∈ body.ops.zipIdx, ∃ op',
      entry.1.resolve (Body.jumpTarget body.positions body.ops.length entry.2) = .ok op' := by
    rintro ⟨op, i⟩ hmem
    refine exists_resolve_op op fun target htarget => ?_
    have hop : op ∈ opsOf bs :=
      ops_eq hlines ▸ List.mem_of_getElem? (List.mk_mem_zipIdx_iff_getElem?.1 hmem)
    obtain ⟨position, hbound, hlt⟩ :=
      exists_position hlines hnodup hne (htargets op hop target htarget)
    refine ⟨position, ?_⟩
    unfold Body.jumpTarget
    rw [hbound]
    exact if_pos hlt
  have hranges : ∀ h ∈ body.handlers, ∃ h',
      Body.resolveHandler body.positions body.ops.length h = .ok h' := by
    intro h hh
    obtain ⟨pre, mid, post, hspans⟩ := hhandlers h hh
    obtain ⟨hstart, hstop⟩ := hspans.positions hlines hnodup
    obtain ⟨position, hbound, hlt⟩ := exists_position hlines hnodup hne hspans.handler
    have hmid : 0 < size mid := by
      obtain ⟨b, rest, rfl, -⟩ := hspans.start
      refine size_pos (fun c hc => hne c ?_) (List.cons_ne_nil b rest)
      rw [hspans.blocks]
      exact List.mem_append_right _ (List.mem_append_left _ hc)
    refine ⟨⟨size pre, size pre + size mid, position, h.caught⟩, ?_⟩
    unfold Body.resolveHandler
    rw [hstart, hstop, hbound]
    exact if_neg (by omega)
  obtain ⟨ops, hresolved⟩ := exists_mapM hops
  obtain ⟨handlers, hhandled⟩ := exists_mapM hranges
  exact ⟨⟨ops.toArray, handlers⟩,
    bind_eq_ok.2 ⟨ops, hresolved, bind_eq_ok.2 ⟨handlers, hhandled, rfl⟩⟩⟩

end Block

end Code

end ProxyForge
