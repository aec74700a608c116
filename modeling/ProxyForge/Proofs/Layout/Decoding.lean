import ProxyForge.Proofs.ClassFile.Instructions
import ProxyForge.Proofs.Layout.Encoding
import ProxyForge.Proofs.Method
/-!
# Layout and decoder

The code of a layout is decoded to one instruction for each symbolic one, at its offset and with
its meaning (`decodeAll_layout`). The bytes of the instructions are read one behind the other
(`Instruction.ReadsAll`), and the offsets of the first pass are where each of them starts.
-/

namespace ProxyForge

open Outcome Decoder

namespace Code

namespace Layout

open Instruction

variable {method : String} {offsets : Array Nat} {pool : Pool}

/-- The pieces of code of instructions from a position on, and what they are read as. -/
theorem readsAll_of_encode {ops : List (Op Nat × UInt16)} {position : Nat} {pieces : List Bytes}
    (hplaces : ∀ i, offsetAt offsets i ≤ limit) (hnames : ∀ x ∈ ops, x.1.Names pool x.2)
    (hnext : ∀ (i : Nat) (op : Op Nat) (constant : UInt16), ops[i]? = some (op, constant) →
      offsetAt offsets (position + i + 1) =
        offsetAt offsets (position + i) + op.size constant (offsetAt offsets (position + i)))
    (h : List.Forall₂ (fun x piece =>
      x.1.1.encode method offsets x.1.2 (offsetAt offsets x.2) = .ok piece)
      (ops.zipIdx position) pieces) :
    ∃ is, ReadsAll (offsetAt offsets position) pieces is ∧
      is.map Instruction.offset = (List.range' position ops.length).map (offsetAt offsets) ∧
      List.Forall₂ (fun x i =>
        x.1.WrittenAs pool (fun target => some (offsetAt offsets target)) i) ops is ∧
      offsetAt offsets (position + ops.length) =
        offsetAt offsets position + pieces.flatten.length := by
  induction ops generalizing position pieces with
  | nil =>
    cases h
    exact ⟨[], .nil, rfl, .nil, rfl⟩
  | cons head ops ih =>
    obtain ⟨op, constant⟩ := head
    rw [List.zipIdx_cons] at h
    obtain ⟨piece, pieces', hpiece, hpieces, rfl⟩ := List.forall₂_cons_left_iff.1 h
    have hsize := Op.length_encode hpiece
    -- where the piece ends, the first pass has the next instruction start
    have hstart : offsetAt offsets (position + 1) = offsetAt offsets position + piece.length := by
      rw [hsize]
      exact hnext 0 op constant rfl
    have hbytes : piece ≠ [] := by
      rw [← List.length_pos_iff, hsize]
      exact size_pos op constant _
    obtain ⟨i, hread, hoffset, hop⟩ := Op.encodes_of_encode hplaces
      (by rw [← hsize, ← hstart]; exact hplaces _) (hnames _ List.mem_cons_self) hpiece
    obtain ⟨is, hreads, hstarts, hops, hend⟩ := ih
      (fun x hx => hnames x (List.mem_cons_of_mem _ hx))
      (fun j op' constant' hj => by
        have := hnext (j + 1) op' constant' hj
        rwa [show position + (j + 1) = position + 1 + j by omega] at this) hpieces
    refine ⟨i :: is, .cons hread hbytes (hstart ▸ hreads), ?_, .cons hop hops, ?_⟩
    · rw [List.map_cons, hoffset, hstarts, List.length_cons, List.range'_succ, List.map_cons]
    · rw [List.length_cons, show position + (ops.length + 1) = position + 1 + ops.length by omega,
        hend, hstart, List.flatten_cons, List.length_append, Nat.add_assoc]

/-- The offsets, listed by position. -/
theorem toList_offsets (offsets : Array Nat) :
    offsets.toList = (List.range offsets.size).map (offsetAt offsets) := by
  refine List.ext_getElem (by simp) fun i hi _ => ?_
  rw [List.getElem_map, List.getElem_range, offsetAt, Array.getElem_toList,
    Array.getElem_eq_getD 0]

variable {name : String} {body : Body} {p : Program} {l : Layout} {b b' : PoolBuilder}

/-- **The code of a program**: one instruction for each, at its offset, and the offset behind them
is the length of the code. -/
theorem decodeAll_ofProgram (h : ofProgram name p b = .ok l b') :
    ∃ is, decodeAll l.code = .ok is ∧
      l.offsets.toList = is.map Instruction.offset ++ [l.code.length] ∧
      List.Forall₂ (fun op i =>
        op.WrittenAs b'.pool (fun target => some (offsetAt l.offsets target)) i)
        p.ops.toList is := by
  obtain ⟨hconstants, -, hencoded⟩ := ofProgram_ok h
  obtain ⟨hmeasured, hlen⟩ := measured_of_ofProgram h
  obtain ⟨pieces, hpieces, hresult⟩ := bind_eq_ok.1 hencoded
  have hcode : pieces.flatten = l.code := Except.ok.inj hresult
  have hnames := List.forall₂_iff_zip.1 (Op.names_of_mapM_intern hconstants)
  obtain ⟨is, hreads, hstarts, hops, hend⟩ := readsAll_of_encode hmeasured.le_limit
    (fun x hx => hnames.2 hx)
    (fun i op constant hi => by simpa using hmeasured.next i op constant hi)
    (mapM_eq_ok hpieces)
  rw [hmeasured.first] at hreads hend
  refine ⟨is, hcode ▸ decodeAll_pieces hreads, ?_, ?_⟩
  · rw [toList_offsets, hmeasured.size, List.range_succ, List.map_append, hstarts,
      List.range_eq_range', List.map_singleton, ← hcode]
    simpa using hend
  · rw [← List.map_fst_zip (Nat.le_of_eq hnames.1), List.forall₂_map_left_iff]
    exact hops

/-- Labels lead to the offsets of their positions. -/
theorem offsetOf_of_jumpTarget (hmeasured : offsets.size = body.ops.length + 1) {index : Nat}
    {label : Label} {position : Nat}
    (h : Body.jumpTarget body.positions body.ops.length index label = .ok position) :
    body.offsetOf offsets label = some (offsetAt offsets position) := by
  obtain ⟨hbound, hlt⟩ := Body.jumpTarget_ok h
  have hsize : position < offsets.size := by omega
  rw [Body.offsetOf, hbound, Option.bind_some, offsetAt, Array.getElem?_eq_getElem hsize,
    Array.getElem_eq_getD 0]

/-- **The code of a body**, read in a pool that has grown: each instruction is written as the
symbolic one, with the labels of the body for offsets. -/
theorem written_of_ofProgram {later : PoolBuilder} (hresolve : body.resolve = .ok p)
    (hlayout : ofProgram name p b = .ok l b') (hlater : b'.Grows later) :
    ∃ is, decodeAll l.code = .ok is ∧
      l.offsets.toList = is.map Instruction.offset ++ [l.code.length] ∧
      List.Forall₂ (fun op i => op.WrittenAs later.pool (body.offsetOf l.offsets) i)
        body.ops is := by
  obtain ⟨is, hdecode, hoffsets, hops⟩ := decodeAll_ofProgram hlayout
  obtain ⟨hsize, hlabels⟩ := Body.resolve_ops hresolve
  obtain ⟨hmeasured, hlen⟩ := measured_of_ofProgram hlayout
  have hlength : body.ops.length = is.length :=
    hsize.symm.trans (Array.length_toList.symm.trans hops.length_eq)
  refine ⟨is, hdecode, hoffsets, List.forall₂_iff_get.2 ⟨hlength, fun i hi hi' => ?_⟩⟩
  -- the instruction at the position, and the one of the body that it was resolved from
  obtain ⟨op', hop', hwritten⟩ := getElem?_of_forall₂ hops (List.getElem?_eq_getElem hi')
  obtain ⟨op, hop, hresolved⟩ := hlabels i op' (Array.getElem?_toList ▸ hop')
  rw [List.getElem?_eq_getElem hi] at hop
  cases hop
  refine (hwritten.of_resolve (fun label position htarget => ?_) hresolved).grows hlater
  exact offsetOf_of_jumpTarget (by rw [hmeasured.size, hlen, hsize]) htarget

/-- **Layout and decoder agree.** The code is decoded, to one instruction for each symbolic one;
each stands at its offset, and the last offset is the length of the code; each is written as the
symbolic one, with the labels of the body for offsets and the constants of the resulting pool. -/
theorem decodeAll_layout (hprogram : body.program name = .ok p)
    (hlayout : ofProgram name p b = .ok l b') :
    ∃ is, decodeAll l.code = .ok is ∧
      l.offsets.toList = is.map Instruction.offset ++ [l.code.length] ∧
      List.Forall₂ (fun op i => op.WrittenAs b'.pool (body.offsetOf l.offsets) i) body.ops is :=
  written_of_ofProgram (mapError_eq_ok.1 hprogram) hlayout (.refl b')

/-- The method that never ends: its jump leads to its own offset. -/
theorem decodeAll_layout_spin :
    ∃ is, decodeAll Spin.layout.code = .ok is ∧ is.map Instruction.offset = [0, 1, 2] ∧
      List.Forall₂ (fun op i => op.WrittenAs PoolBuilder.empty.pool
        (Spin.code.offsetOf Spin.layout.offsets) i) Spin.code.ops is := by
  have hlayout : ofProgram Spin.header.name Spin.program .empty = .ok Spin.layout .empty := rfl
  obtain ⟨is, hdecode, hoffsets, hops⟩ := decodeAll_layout Spin.laidOut.program hlayout
  refine ⟨is, hdecode, ?_, hops⟩
  exact (List.append_left_inj [5]).1 hoffsets.symm

end Layout

end Code

end ProxyForge
