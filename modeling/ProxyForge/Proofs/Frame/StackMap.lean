import ProxyForge.Proofs.Method
/-!
# The table of frames

`frameTable` replays the frames of a method: the offset of each and the state that it stands for.
`Framed` collects what a successful inference says about it, and `framed_of_ofProgram` proves
that. `stackMap_exact`: the table is read back from its bytes, its offsets are those of the
instructions that need a frame, and it shows there what the search has found.
-/

namespace ProxyForge

namespace Code

open ProxyForge.Frame (ReadAs)
open SlotType (top spread)
open TypeState (entryValues)
open VerifierInfo (positions localLimit ofProgram framesOf)

variable {m : MethodHeader} {body : Body} {p : Program} {l : Layout} {b b' : PoolBuilder}
  {info : VerifierInfo} {e : TypeState} {s : Search} {c : Context} {i : Nat}

/-- **The table of frames of a method**: the offset of each frame and the state that it stands
for, when the frames are replayed from the start of the method. -/
def frameTable (pool : Pool) (c : Context) (frames : List Frame) :
    Option (List (Nat × TypeState)) := do
  let shown ← Frame.replay (VerificationType.slot pool c.madeAt) (entryValues c.shape) frames
  return ((Frame.offsets frames).map UInt32.toNat).zip (shown.map shownState)

/-- **What a successful inference says**, with the search that it ran. -/
structure Framed (p : Program) (c : Context) (e : TypeState) (s : Search) (info : VerifierInfo)
    (pool : Pool) : Prop where
  entry : TypeState.entry c.shape = .ok e
  size_pos : 0 < p.ops.size
  infer : Search.infer c e = .ok s
  maxStack : info.maxStack = s.maxStack
  maxLocals : info.maxLocals = localLimit p.ops e
  offsets : (Frame.offsets info.frames).map UInt32.toNat =
    (positions p.ops (Guard.ofHandlers p.handlers)).map c.offsetAt
  wellFormed : (∀ i < p.ops.size, (s.knownAt i).Fits) → ∀ f ∈ info.frames, f.WellFormed
  table : ∃ table, frameTable pool c info.frames = some table ∧
    List.Forall₂ (fun i row => row.1 = c.offsetAt i ∧ row.2.Agrees (s.knownAt i))
      (positions p.ops (Guard.ofHandlers p.handlers)) table

/-! ## What is written -/

/-- What the search has found at any instruction can be written to a frame. -/
theorem writable_knownAt {bound : Nat} (hc : c.Valid) (hasc : c.Ascends)
    (hs : Search.Inferred c bound e s) (he : e.Made c) (hi : i < c.ops.size) :
    Writable c.madeAt (s.knownAt i) := by
  refine ⟨(hs.admits hi).paired, fun v hv offset name heq => ?_⟩
  subst heq
  have hmade := hs.typing.made hc hs.staysInside (Nat.zero_lt_of_lt hi) he (hs.reachable hi)
  obtain ⟨k, hk, rfl⟩ := hmade offset name hv
  refine ⟨hasc.le_limit k, Context.madeAt_offsetAt hk fun j hj heq => ?_⟩
  exact hasc.inj hj (Array.getElem?_eq_some_iff.1 hk).1 heq

/-- The locals at the start, in the form of a frame, say what the receiver and the parameters
are. -/
theorem readAs_compact_entry (made : Nat → Option String) {types : List VerificationType}
    (he : TypeState.entry m = .ok e) (h : VerifierInfo.compact e.locals b = .ok types b') :
    b.Grows b' ∧ ReadAs (VerificationType.slot b'.pool made) types (entryValues m) := by
  have hlocals : e.locals = spread (entryValues m) := by rw [TypeState.entry_ok he]
  have hnamed : ∀ t ∈ e.locals, t.Named made := by
    intro t ht offset name heq
    subst heq
    have hmade := TypeState.made_entry ⟨m, #[], #[], []⟩ he offset name (.inl ht)
    obtain ⟨k, hk, -⟩ := hmade
    simp at hk
  obtain ⟨hgrows, -, values, n, hread, hslots⟩ :=
    VerifierInfo.compact_ok hnamed (TypeState.paired_entry he).locals h
  have heq := SlotType.spread_injective (hlocals.symm.trans hslots)
  cases n with
  | zero =>
    rw [List.replicate_zero, List.append_nil] at heq
    exact ⟨hgrows, heq ▸ hread⟩
  | succ n =>
    have htop : top ∈ entryValues m := by
      rw [heq]
      simp [List.replicate_succ]
    exact absurd rfl (TypeState.value_of_mem_entryValues htop).1

/-! ## The search of a method -/

theorem LaidOut.inferred (hl : LaidOut m body p l) (he : TypeState.entry m = .ok e) {bound : Nat}
    (hbound : (p.context m l.offsets).ReachesBelow bound) (hsize : 0 < p.ops.size)
    (hs : Search.infer (p.context m l.offsets) e = .ok s) (hlocals : e.locals.length ≤ bound)
    (hle : bound ≤ e.locals.length + 65537) :
    Search.Inferred (p.context m l.offsets) bound e s :=
  Search.infer_spec hl.valid hbound hsize (TypeState.paired_entry he)
    (by rw [TypeState.entry_ok he]) hlocals hle hs

/-- A bound that holds of every program. -/
theorem LaidOut.inferred_max (hl : LaidOut m body p l) (he : TypeState.entry m = .ok e)
    (hsize : 0 < p.ops.size) (hs : Search.infer (p.context m l.offsets) e = .ok s) :
    Search.Inferred (p.context m l.offsets) (max e.locals.length 65537) e s :=
  hl.inferred he (Context.reachesBelow_max _ _) hsize hs (le_max_left _ _) (by omega)

/-! ## The whole table -/

/-- Rows of a table, each with its offset. -/
theorem forall₂_rows {is : List Nat} {shown : List (List SlotType × List SlotType)}
    (h : List.Forall₂ (fun i sh => (shownState sh).Agrees (s.knownAt i)) is shown) :
    List.Forall₂ (fun i (row : Nat × TypeState) =>
      row.1 = c.offsetAt i ∧ row.2.Agrees (s.knownAt i)) is
      ((is.map c.offsetAt).zip (shown.map shownState)) := by
  induction h with
  | nil => exact .nil
  | cons hagrees _ ih => exact .cons ⟨rfl, hagrees⟩ ih

/-- **A successful inference**, said in full. -/
theorem framed_of_ofProgram (hl : LaidOut m body p l)
    (h : ofProgram m p l.offsets b = .ok info b') :
    ∃ e s, Framed p (p.context m l.offsets) e s info b'.pool := by
  obtain ⟨e, s, he, hsize, hs, hframes⟩ := VerifierInfo.ofProgram_ok h
  obtain ⟨before, b₁, hbefore, hrest⟩ := Outcome.bind_run_ok.1 hframes
  obtain ⟨frames, b₂, hfrom, hresult⟩ := Outcome.bind_run_ok.1 hrest
  cases hresult
  have hinferred := hl.inferred_max he hsize hs
  have hmem : ∀ i ∈ positions p.ops (Guard.ofHandlers p.handlers), i < p.ops.size :=
    fun i hi => (VerifierInfo.mem_positions.1 hi).1
  obtain ⟨-, hread⟩ := readAs_compact_entry (p.context m l.offsets).madeAt he hbefore
  obtain ⟨-, fs, hfs, hformed, hoffsets, shown, hreplay, hshown⟩ :=
    VerifierInfo.framesFrom_ok hl.ascends (fun i hi => ⟨hmem i hi, s.knownAt i, by
      obtain ⟨t, _, _, ht, -⟩ := hinferred.known i (hmem i hi)
      rw [ht, Search.knownAt_of_stateAt ht], writable_knownAt hl.valid hl.ascends hinferred
        (TypeState.made_entry _ he) (hmem i hi)⟩)
      (VerifierInfo.positions_pairwise _ _) (fun _ hlast => by cases hlast) hread hfrom
  rw [List.reverse_nil, List.nil_append] at hfs
  subst hfs
  have hnat : (Frame.offsets frames).map UInt32.toNat =
      (positions p.ops (Guard.ofHandlers p.handlers)).map (p.context m l.offsets).offsetAt := by
    unfold Frame.offsets
    rw [Option.map_none] at hoffsets
    rw [hoffsets, List.map_map]
    refine List.map_congr_left fun i _ => ?_
    have := hl.ascends.le_limit i
    rw [Function.comp_apply, UInt32.toNat_ofNat']
    exact Nat.mod_eq_of_lt (by omega)
  refine ⟨e, s, he, hsize, hs, rfl, rfl, hnat, fun hfits => hformed fun i hi => hfits i (hmem i hi),
    ((Frame.offsets frames).map UInt32.toNat).zip (shown.map shownState), ?_, ?_⟩
  · change (do
      let shown ← Frame.replay _ _ frames
      return ((Frame.offsets frames).map UInt32.toNat).zip (shown.map shownState)) = _
    change Frame.replay _ (entryValues m) frames = _ at hreplay
    rw [show entryValues (p.context m l.offsets).shape = entryValues m from rfl, hreplay]
    rfl
  · rw [hnat]
    exact forall₂_rows hshown

namespace Framed

theorem length_offsetsAfter (before : Option UInt32) (frames : List Frame) :
    (Frame.offsetsAfter before frames).length = frames.length := by
  induction frames generalizing before with
  | nil => rfl
  | cons f frames ih => simp [Frame.offsetsAfter, ih]

/-- There are no more frames than instructions. -/
theorem length_frames_le {pool : Pool} (h : Framed p c e s info pool) :
    info.frames.length ≤ p.ops.size := by
  have hlen := congrArg List.length h.offsets
  rw [List.length_map, List.length_map, Frame.offsets, length_offsetsAfter] at hlen
  rw [hlen]
  unfold positions
  exact le_trans (List.length_filter_le _ _) (List.length_range).le

/-- A row of the table is that of an instruction that needs a frame. -/
theorem row {pool : Pool} (h : Framed p c e s info pool) {table : List (Nat × TypeState)}
    (htable : frameTable pool c info.frames = some table) {offset : Nat} {t : TypeState}
    (ht : (offset, t) ∈ table) : ∃ i < p.ops.size, p.NeedsFrame i ∧ c.offsetAt i = offset ∧
      t.Agrees (s.knownAt i) := by
  obtain ⟨table', htable', hrows⟩ := h.table
  cases htable.symm.trans htable'
  obtain ⟨k, hk⟩ := List.mem_iff_getElem?.1 ht
  obtain ⟨i, hi, hoffset, hagrees⟩ := Outcome.getElem?_of_forall₂ hrows hk
  obtain ⟨hlt, hneeds⟩ := VerifierInfo.mem_positions.1 (List.mem_of_getElem? hi)
  exact ⟨i, hlt, hneeds, hoffset.symm, hagrees⟩

/-- An instruction that needs a frame has a row in the table. -/
theorem exists_row {pool : Pool} (h : Framed p c e s info pool) {table : List (Nat × TypeState)}
    (htable : frameTable pool c info.frames = some table) (hi : i < p.ops.size)
    (hneeds : p.NeedsFrame i) : ∃ t, (c.offsetAt i, t) ∈ table := by
  obtain ⟨table', htable', hrows⟩ := h.table
  cases htable.symm.trans htable'
  obtain ⟨k, hk⟩ := List.mem_iff_getElem?.1 (VerifierInfo.mem_positions.2 ⟨hi, hneeds⟩)
  obtain ⟨row, hrow, hoffset, -⟩ := Outcome.getElem?_of_forall₂ hrows.flip hk
  exact ⟨row.2, hoffset ▸ List.mem_of_getElem? hrow⟩

/-- The offsets in the table are those of the frames. -/
theorem map_fst_table {pool : Pool} (h : Framed p c e s info pool)
    {table : List (Nat × TypeState)} (htable : frameTable pool c info.frames = some table) :
    table.map (·.1) = (Frame.offsets info.frames).map UInt32.toNat := by
  obtain ⟨table', htable', hrows⟩ := h.table
  cases htable.symm.trans htable'
  rw [h.offsets]
  generalize positions p.ops (Guard.ofHandlers p.handlers) = is at hrows ⊢
  clear htable htable'
  induction hrows with
  | nil => rfl
  | cons hrow _ ih => rw [List.map_cons, List.map_cons, hrow.1, ih]

end Framed

/-- **The table of frames says exactly what the search has found.** It is read back from its
bytes; its offsets ascend, and are those of the instructions that need a frame; and replayed in
order from the start of the method, it shows what is known at each of them. -/
theorem stackMap_exact (hl : LaidOut m body p l) (h : ofProgram m p l.offsets b = .ok info b')
    (he : TypeState.entry m = .ok e) (hreach : ∀ op ∈ body.ops, op.reach ≤ 65535)
    (hlocals : e.locals.length ≤ 65535) :
    Frame.decodeTable (Frame.encodeTable info.frames) = .ok info.frames ∧
      (Frame.offsets info.frames).Pairwise (· < ·) ∧
      (∀ offset, offset ∈ (Frame.offsets info.frames).map UInt32.toNat ↔
        ∃ i < p.ops.size, p.NeedsFrame i ∧ Layout.offsetAt l.offsets i = offset) ∧
      ∃ s table, Search.infer (p.context m l.offsets) e = .ok s ∧
        frameTable b'.pool (p.context m l.offsets) info.frames = some table ∧
        table.map (·.1) = (Frame.offsets info.frames).map UInt32.toNat ∧
        ∀ i < p.ops.size, ∀ t, (Layout.offsetAt l.offsets i, t) ∈ table →
          ∃ known, s.stateAt i = some known ∧ t.Agrees known := by
  obtain ⟨e', s, hf⟩ := framed_of_ofProgram hl h
  cases he.symm.trans hf.entry
  obtain ⟨table, htable, -⟩ := hf.table
  have hasc := hl.ascends
  have hinferred := hl.inferred he (hl.reachesBelow hreach) hf.size_pos hf.infer hlocals (by omega)
  refine ⟨?_, ?_, fun offset => ?_, s, table, hf.infer, htable, hf.map_fst_table htable, ?_⟩
  · refine Frame.decodeTable_encodeTable (le_trans hf.length_frames_le hl.size_le)
      (hf.wellFormed fun i hi => ⟨(hinferred.admits hi).locals, ?_⟩)
    exact le_trans (hinferred.height_lt hi).le hl.size_le
  · have hpairwise : ((Frame.offsets info.frames).map UInt32.toNat).Pairwise (· < ·) := by
      rw [hf.offsets, List.pairwise_map]
      refine (VerifierInfo.positions_pairwise _ _).imp_of_mem fun _ hj hij => ?_
      exact hasc.lt_of_lt hij (VerifierInfo.mem_positions.1 hj).1
    exact (List.pairwise_map.1 hpairwise).imp UInt32.lt_iff_toNat_lt.2
  · rw [hf.offsets, List.mem_map]
    constructor
    · rintro ⟨i, hi, hoffset⟩
      obtain ⟨hlt, hneeds⟩ := VerifierInfo.mem_positions.1 hi
      exact ⟨i, hlt, hneeds, hoffset⟩
    · rintro ⟨i, hlt, hneeds, hoffset⟩
      exact ⟨i, VerifierInfo.mem_positions.2 ⟨hlt, hneeds⟩, hoffset⟩
  · intro i hi t ht
    obtain ⟨j, hj, -, hoffset, hagrees⟩ := hf.row htable ht
    obtain rfl := hasc.inj hj hi hoffset
    obtain ⟨known, _, _, hknown, -⟩ := hinferred.known j hj
    rw [Search.knownAt_of_stateAt hknown] at hagrees
    exact ⟨known, hknown, hagrees⟩

/-- The table of the method that never ends has one row, for the instruction that it repeats. -/
theorem stackMap_exact_spin :
    Frame.decodeTable (Frame.encodeTable Spin.info.frames) = .ok Spin.info.frames ∧
      ∃ table, frameTable PoolBuilder.empty.pool
          (Spin.program.context Spin.header Spin.layout.offsets) Spin.info.frames = some table ∧
        table.map (·.1) = [2] := by
  obtain ⟨hread, -, -, s, table, -, htable, hoffsets, -⟩ :=
    stackMap_exact Spin.laidOut Spin.framed Spin.entry (by decide) (by decide)
  exact ⟨hread, table, htable, hoffsets⟩

end Code

end ProxyForge
