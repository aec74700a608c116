import ProxyForge.Proofs.Layout.Blocks
import ProxyForge.Proofs.Layout.Decoding
import ProxyForge.Proofs.Run.Machine
/-!
# Code at the labels of blocks

A body that is made of blocks is written as instructions, one for each of its own
(`Run.Written`). From the offset of a block's label on there stand the instructions of that block
(`Written.codeFrom_label`), and different labels have different offsets
(`Written.eq_of_offsetOf`).
-/

namespace ProxyForge

namespace Run

open Outcome
open Code (Block Body Label Layout LaidOut Program)

/-- **Blocks that are written as instructions**, at offsets of their own. -/
structure Written (pool : Pool) (body : Body) (offsets : Array Nat) (bs : List Block)
    (is : List Instruction) : Prop where
  lines : body.lines = Block.linesOf bs
  labels : (Block.labelsOf bs).Nodup
  nonempty : ∀ b ∈ bs, b.ops ≠ []
  starts : ∃ stop, offsets.toList = is.map Instruction.offset ++ [stop]
  apart : (is.map Instruction.offset).Nodup
  ops : List.Forall₂ (fun op i => op.WrittenAs pool (body.offsetOf offsets) i) (Block.opsOf bs) is

/-- **Blocks that are laid out** are written as the instructions that are decoded. -/
theorem written_of_laidOut {name : String} {body : Body} {p : Program} {l : Layout}
    {b b' later : PoolBuilder} {bs : List Block} (hlines : body.lines = Block.linesOf bs)
    (hlabels : (Block.labelsOf bs).Nodup) (hnonempty : ∀ b ∈ bs, b.ops ≠ [])
    (hprogram : body.program name = .ok p) (hlayout : Layout.ofProgram name p b = .ok l b')
    (hlater : b'.Grows later) :
    ∃ is, Instruction.decodeAll l.code = .ok is ∧ Written later.pool body l.offsets bs is := by
  obtain ⟨is, hdecode, hoffsets, hops⟩ :=
    Layout.written_of_ofProgram (mapError_eq_ok.1 hprogram) hlayout hlater
  obtain ⟨hmeasured, -⟩ := Layout.measured_of_ofProgram hlayout
  refine ⟨is, hdecode, hlines, hlabels, hnonempty, ⟨_, hoffsets⟩, ?_,
    Block.ops_eq hlines ▸ hops⟩
  have hascending : l.offsets.toList.Nodup := by
    rw [Layout.toList_offsets]
    refine List.nodup_range.map_on fun i hi j hj heq => ?_
    rw [List.mem_range, hmeasured.size] at hi hj
    rcases Nat.lt_trichotomy i j with hlt | hsame | hlt
    · exact absurd heq (Nat.ne_of_lt (hmeasured.lt_of_lt hlt (Nat.le_of_lt_succ hj)))
    · exact hsame
    · exact absurd heq.symm (Nat.ne_of_lt (hmeasured.lt_of_lt hlt (Nat.le_of_lt_succ hi)))
  rw [hoffsets] at hascending
  exact (List.nodup_append.1 hascending).1

namespace Written

variable {pool : Pool} {body : Body} {offsets : Array Nat} {bs pre post : List Block} {b : Block}
  {is : List Instruction} {label label' : Label} {target : Nat}

/-- A label that has a position has the offset of the instruction there. -/
theorem offsetOf_eq (h : Written pool body offsets bs is) {k : Nat} {i : Instruction}
    (hlabel : body.positions[label]? = some k) (hi : is[k]? = some i) :
    body.offsetOf offsets label = some i.offset := by
  obtain ⟨stop, hoffsets⟩ := h.starts
  have hlt : k < (is.map Instruction.offset).length := by
    rw [List.length_map]
    exact (List.getElem?_eq_some_iff.1 hi).1
  rw [Body.offsetOf, hlabel, Option.bind_some, ← Array.getElem?_toList, hoffsets,
    List.getElem?_append_left hlt, List.getElem?_map, hi]
  rfl

/-- **From the offset of its label on** there stand the instructions of a block. -/
theorem codeFrom_label (h : Written pool body offsets bs is) (hb : b ∈ bs)
    (hlabel : b.label = some label) :
    ∃ i code rest, body.offsetOf offsets label = some i.offset ∧
      codeFrom i.offset is = i :: code ++ rest ∧
      List.Forall₂ (fun op i => op.WrittenAs pool (body.offsetOf offsets) i) b.ops (i :: code) := by
  obtain ⟨pre, post, rfl⟩ := List.append_of_mem hb
  have hposition := Block.positions_label h.lines h.labels hlabel
  -- the instructions are those of the blocks in front, of the block, and of those behind
  have hops := h.ops
  rw [Block.opsOf_append, Block.opsOf_cons] at hops
  obtain ⟨front, back, rfl, hfront, hback⟩ := exists_append_of_forall₂ hops
  obtain ⟨code, rest, rfl, hcode, -⟩ := exists_append_of_forall₂ hback
  obtain ⟨op, ops, hne⟩ := List.exists_cons_of_ne_nil (h.nonempty b hb)
  rw [hne] at hcode ⊢
  cases hcode with
  | @cons _ i _ code hop hcode =>
    have hstart : (front ++ (i :: code ++ rest))[Block.size pre]? = some i := by
      rw [Block.size, hfront.length_eq, List.getElem?_append_right (Nat.le_refl _), Nat.sub_self]
      rfl
    refine ⟨i, code, rest, h.offsetOf_eq hposition hstart, ?_, .cons hop hcode⟩
    -- no instruction in front of the block stands at its offset
    have hapart := h.apart
    rw [List.map_append] at hapart
    have hdrop : ∀ j ∈ front, decide (j.offset ≠ i.offset) = true := fun j hj =>
      decide_eq_true fun heq => (List.nodup_append.1 hapart).2.2 _ (List.mem_map_of_mem hj) _
        (List.mem_map_of_mem (List.mem_append_left rest List.mem_cons_self)) heq
    unfold codeFrom
    rw [List.dropWhile_append_of_pos hdrop, List.cons_append,
      List.dropWhile_cons_of_neg (by simp)]

/-- **Different labels have different offsets.** -/
theorem eq_of_offsetOf (h : Written pool body offsets bs is) (hlabel : label ∈ Block.labelsOf bs)
    (hlabel' : label' ∈ Block.labelsOf bs)
    (heq : body.offsetOf offsets label = body.offsetOf offsets label') : label = label' := by
  obtain ⟨k, hk, hlt⟩ := Block.exists_position h.lines h.labels h.nonempty hlabel
  obtain ⟨k', hk', hlt'⟩ := Block.exists_position h.lines h.labels h.nonempty hlabel'
  rw [Block.ops_eq h.lines, h.ops.length_eq] at hlt hlt'
  rw [h.offsetOf_eq hk (List.getElem?_eq_getElem hlt),
    h.offsetOf_eq hk' (List.getElem?_eq_getElem hlt')] at heq
  have hfst : k < (is.map Instruction.offset).length := by rwa [List.length_map]
  have hsnd : k' < (is.map Instruction.offset).length := by rwa [List.length_map]
  have hoffset : (is.map Instruction.offset)[k] = (is.map Instruction.offset)[k'] := by
    rw [List.getElem_map, List.getElem_map]
    exact Option.some.inj heq
  have hsame := h.apart.getElem_inj_iff.1 hoffset
  exact Block.positions_injective h.lines h.labels h.nonempty hlabel hlabel'
    (hk.trans (hsame ▸ hk'.symm))

end Written

end Run

end ProxyForge
