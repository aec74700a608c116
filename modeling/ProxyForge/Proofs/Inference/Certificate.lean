import ProxyForge.Proofs.Inference.Stretches
/-!
# Certified bodies

A certificate for a body is all that the inference of frames needs to accept it: the labels of the
body can be resolved (`Certificate.exists_program`), its instructions have a typing
(`Certificate.typing`), control may come to each of them (`Certificate.reachable`) and never behind
the last one (`Certificate.staysInside`).
-/

namespace ProxyForge

namespace Code

open SlotType (top)
open Outcome
open Stretch

/-! ## Resolved instructions -/

/-- Looking up labels does not change what an instruction does. -/
theorem TypeState.step_resolve {L M ε : Type} {place : L → Except ε M} {op : Op L} {op' : Op M}
    (h : op.resolve place = .ok op') (m : MethodHeader) (offset : Nat) (s : TypeState) :
    s.step m offset op' = s.step m offset op :=
  Op.resolve_agrees (f := s.step m offset) (fun op => by
    cases op with
    | ret kind => cases kind <;> rfl
    | jump kind target => cases kind <;> rfl
    | _ => rfl) h

theorem Op.isUnconditional_resolve {L M ε : Type} {place : L → Except ε M} {op : Op L} {op' : Op M}
    (h : op.resolve place = .ok op') : op'.isUnconditional = op.isUnconditional :=
  Op.resolve_agrees (f := Op.isUnconditional) (fun op => by
    cases op with
    | jump kind target => cases kind <;> rfl
    | _ => rfl) h

namespace Certificate

variable {m : MethodHeader} {e : TypeState} {body : Body} {ss : List Stretch} {p : Program}
  {l : Layout} {label : Label} {t : TypeState} {i : Nat}

/-! ## Labels -/

theorem blocks_nonempty (h : Certificate m e body ss) : ∀ b ∈ blocks ss, b.ops ≠ [] := by
  intro b hb
  obtain ⟨s, hs, rfl⟩ := List.mem_map.1 hb
  exact h.nonempty s hs

theorem mem_labelsOf_of_accepts (h : Accepts ss label t) : label ∈ Block.labelsOf (blocks ss) := by
  obtain ⟨s, hs, hlabel, -⟩ := h
  exact Block.mem_labelsOf.2 ⟨s.toBlock, List.mem_map_of_mem hs, hlabel⟩

/-- A stretch that accepts a state begins with a row that knows at least as much. -/
theorem row_of_accepts (h : Certificate m e body ss) (offset : Nat → Nat)
    (haccepts : Accepts ss label t) : ∃ j row, body.positions[label]? = some j ∧
      (rows m offset 0 ss)[j]? = some row ∧ t ≤ row.state := by
  obtain ⟨s, hs, hlabel, hle⟩ := haccepts
  obtain ⟨pre, post, rfl⟩ := List.append_of_mem hs
  obtain ⟨row, hrow, hstate⟩ :=
    row_of_split m offset pre post 0 (h.nonempty s hs)
  have hblocks : blocks (pre ++ s :: post) = blocks pre ++ s.toBlock :: blocks post :=
    List.map_append
  have hlines := h.lines
  have hnodup := h.nodup
  rw [hblocks] at hlines hnodup
  exact ⟨_, row, Block.positions_label hlines hnodup hlabel, hrow, hle.trans (ge_of_eq hstate)⟩

/-- The handler of a range is a stretch. -/
theorem exists_accepts_of_guarded (h : Certificate m e body ss) {r : Handler Label}
    {pre mid post : List Stretch} (hr : Guarded ss r pre mid post) :
    ∃ t, Accepts ss r.handler t := by
  obtain ⟨s, rest, rfl, -⟩ := hr.start
  have hs : s ∈ ss := by
    rw [hr.stretches]
    exact List.mem_append_right _ (List.mem_append_left _ List.mem_cons_self)
  have hguard := hr.guards s List.mem_cons_self
  obtain ⟨i, next, hflows⟩ := (h.linked id).exists_flows hs
  generalize hops : s.ops = ops at hflows
  cases hflows with
  | done => exact absurd hops (h.nonempty s hs)
  | on hstep => exact ⟨_, hstep.before _ hguard⟩
  | stop hstep => exact ⟨_, hstep.before _ hguard⟩

theorem spans (h : Certificate m e body ss) {r : Handler Label} {pre mid post : List Stretch}
    (hr : Guarded ss r pre mid post) :
    Block.Spans (blocks ss) r (blocks pre) (blocks mid) (blocks post) where
  blocks := by
    rw [hr.stretches]
    simp only [Stretch.blocks, List.map_append]
  start := by
    obtain ⟨s, rest, rfl, hlabel⟩ := hr.start
    exact ⟨s.toBlock, blocks rest, rfl, hlabel⟩
  stop := by
    obtain ⟨s, rest, rfl, hlabel⟩ := hr.stop
    exact ⟨s.toBlock, blocks rest, rfl, hlabel⟩
  handler := by
    obtain ⟨t, ht⟩ := h.exists_accepts_of_guarded hr
    exact mem_labelsOf_of_accepts ht

/-- **The labels of a certified body can be resolved.** -/
theorem exists_program (h : Certificate m e body ss) : ∃ p, body.resolve = .ok p := by
  refine Block.exists_resolve h.lines h.nodup h.blocks_nonempty (fun op hop label hlabel => ?_)
    fun r hr => ?_
  · obtain ⟨b, hb, hop⟩ := List.mem_flatMap.1 hop
    obtain ⟨s, hs, rfl⟩ := List.mem_map.1 hb
    obtain ⟨i, next, hflows⟩ := (h.linked id).exists_flows hs
    obtain ⟨t, ht⟩ := hflows.target_mem hop hlabel
    exact mem_labelsOf_of_accepts ht
  · obtain ⟨pre, mid, post, hguarded⟩ := h.handlers r hr
    exact ⟨_, _, _, h.spans hguarded⟩

/-! ## The typing -/

/-- The rows of a certified body, one for each instruction. -/
def rowsAt (m : MethodHeader) (l : Layout) (ss : List Stretch) : List Row :=
  rows m (Layout.offsetAt l.offsets) 0 ss

/-- What the rows know at each position. -/
def known (m : MethodHeader) (l : Layout) (ss : List Stretch) (i : Nat) : TypeState :=
  ((rowsAt m l ss)[i]?.map Row.state).getD default

theorem known_of_row {row : Row} (h : (rowsAt m l ss)[i]? = some row) :
    known m l ss i = row.state := by
  rw [known, h]
  rfl

theorem length_rowsAt (h : Certificate m e body ss) (hl : LaidOut m body p l) :
    (rowsAt m l ss).length = p.ops.size := by
  rw [(Body.resolve_ops hl.resolve).1, Block.ops_eq h.lines]
  exact length_rows 0 ss

/-- **Each instruction has a row**, with the instruction that it was resolved from. -/
theorem exists_row (h : Certificate m e body ss) (hl : LaidOut m body p l) {op' : Op Nat}
    (hop : p.ops[i]? = some op') : ∃ row, (rowsAt m l ss)[i]? = some row ∧
      row.op.resolve (Body.jumpTarget body.positions body.ops.length i) = .ok op' := by
  obtain ⟨op, hop, hresolve⟩ := (Body.resolve_ops hl.resolve).2 i op' hop
  rw [Block.ops_eq h.lines, ← map_op_rows m (Layout.offsetAt l.offsets) 0,
    List.getElem?_map] at hop
  obtain ⟨row, hrow, rfl⟩ := Option.map_eq_some_iff.1 hop
  exact ⟨row, hrow, hresolve⟩

/-- A row that is accepted at a label is above what arrives there. -/
theorem le_known_of_accepts (h : Certificate m e body ss) {j : Nat}
    (haccepts : Accepts ss label t) (hj : body.positions[label]? = some j) :
    t ≤ known m l ss j := by
  obtain ⟨j', row, hj', hrow, hle⟩ := h.row_of_accepts (Layout.offsetAt l.offsets) haccepts
  cases hj.symm.trans hj'
  rwa [known_of_row hrow]

/-- **What is raised in a range** is accepted by the handler. -/
theorem guard_mem (h : Certificate m e body ss) (hl : LaidOut m body p l) {g : Guard}
    (hg : g ∈ Guard.ofHandlers p.handlers) (hi : g.covers i) {row : Row}
    (hrow : (rowsAt m l ss)[i]? = some row) :
    ∃ label, body.positions[label]? = some g.handler ∧ label ∈ row.guards := by
  obtain ⟨r', hr', rfl⟩ := List.mem_map.1 hg
  obtain ⟨k, hk⟩ := List.mem_iff_getElem?.1 hr'
  obtain ⟨r, hr, hresolve⟩ := getElem?_of_forall₂ (Body.resolve_handlers hl.resolve) hk
  obtain ⟨hstart, hstop, hhandler, -⟩ := Body.resolveHandler_ok hresolve
  obtain ⟨pre, mid, post, hguarded⟩ := h.handlers r (List.mem_of_getElem? hr)
  obtain ⟨hlow, hhigh⟩ := (h.spans hguarded).positions h.lines h.nodup
  simp only [Guard.covers, Bool.and_eq_true, decide_eq_true_eq] at hi
  rw [Option.some.inj (hstart.symm.trans hlow), Option.some.inj (hstop.symm.trans hhigh)] at hi
  refine ⟨r.handler, hhandler, ?_⟩
  rw [rowsAt, hguarded.stretches] at hrow
  exact guards_of_range hguarded.guards hi.1 hi.2 hrow

/-- What a handler catches is an object. -/
theorem raised_le (hl : LaidOut m body p l) {g : Guard} (hg : g ∈ Guard.ofHandlers p.handlers)
    (s : TypeState) : (⟨s.locals, [g.caught]⟩ : TypeState) ≤ s.raised := by
  obtain ⟨name, hname⟩ := hl.valid.caught_object g hg
  rw [hname]
  exact ⟨fun _ => le_refl _, .cons (SlotType.Below.root name) .nil⟩

/-- **The rows are a typing.** -/
theorem typing (h : Certificate m e body ss) (hl : LaidOut m body p l) :
    (p.context m l.offsets).Typing e (known m l ss) := by
  have hlinked := h.linked (Layout.offsetAt l.offsets)
  have hpaired : ∀ i < p.ops.size, (known m l ss i).Paired := by
    intro i hi
    rw [← h.length_rowsAt hl] at hi
    rw [known_of_row (List.getElem?_eq_getElem hi)]
    exact (hlinked.row h.paired h.nonempty (List.getElem?_eq_getElem hi)).1
  refine ⟨?_, fun i op' hop => ?_, fun i hi => (hpaired i hi).stack,
    fun i hi k hk => (hpaired i hi).slotAt_succ hk⟩
  · obtain ⟨s, rest, rfl, hle, -⟩ := h.first
    obtain ⟨row, hrow, hstate⟩ := row_of_split m (Layout.offsetAt l.offsets) [] rest 0
      (h.nonempty s List.mem_cons_self)
    have hfirst : (rowsAt m l (s :: rest))[0]? = some row := hrow
    rw [known_of_row hfirst, hstate]
    exact hle
  · obtain ⟨row, hrow, hresolve⟩ := h.exists_row hl hop
    obtain ⟨-, t, hstep, hon⟩ := hlinked.row h.paired h.nonempty hrow
    rw [Nat.zero_add] at hstep
    rw [known_of_row hrow]
    refine ⟨t, (TypeState.step_resolve hresolve _ _ _).trans hstep.step, fun j u harrives _ => ?_⟩
    cases harrives with
    | jump hop₂ hj =>
      cases hop.symm.trans hop₂
      obtain ⟨k, hk⟩ := List.mem_iff_getElem?.1 hj
      obtain ⟨label, hlabel, hplace⟩ := getElem?_of_forall₂ (Op.resolve_targets hresolve) hk
      exact h.le_known_of_accepts (hstep.targets label (List.mem_of_getElem? hlabel))
        (Body.jumpTarget_ok hplace).1
    | next hop₂ hu =>
      cases hop.symm.trans hop₂
      obtain ⟨row', hrow', hle⟩ := hon ((Op.isUnconditional_resolve hresolve).symm.trans hu)
      rwa [known_of_row hrow']
    | raisedBefore hg hi =>
      obtain ⟨label, hposition, hmem⟩ := h.guard_mem hl hg hi hrow
      exact (raised_le hl hg _).trans (h.le_known_of_accepts (hstep.before label hmem) hposition)
    | raisedAfter hg hi =>
      obtain ⟨label, hposition, hmem⟩ := h.guard_mem hl hg hi hrow
      exact (raised_le hl hg _).trans (h.le_known_of_accepts (hstep.after label hmem) hposition)

/-- **Control never passes on behind the last instruction.** -/
theorem staysInside (h : Certificate m e body ss) (hl : LaidOut m body p l) :
    (p.context m l.offsets).StaysInside := by
  intro i op' hop hu
  obtain ⟨row, hrow, hresolve⟩ := h.exists_row hl hop
  obtain ⟨-, t, -, hon⟩ :=
    (h.linked (Layout.offsetAt l.offsets)).row h.paired h.nonempty hrow
  obtain ⟨row', hrow', -⟩ := hon ((Op.isUnconditional_resolve hresolve).symm.trans hu)
  exact h.length_rowsAt hl ▸ (List.getElem?_eq_some_iff.1 hrow').1

/-! ## Reachability -/

section Reachable

variable {pre rest : List Stretch} {s : Stretch}

/-- An instruction of a stretch, where it stands in the program. -/
theorem exists_op (h : Certificate m e body (pre ++ s :: rest)) (hl : LaidOut m body p l) {k : Nat}
    {op : Op Label} (hop : s.ops[k]? = some op) : ∃ op',
      p.ops[Block.size (blocks pre) + k]? = some op' ∧
        op.resolve (Body.jumpTarget body.positions body.ops.length
          (Block.size (blocks pre) + k)) = .ok op' := by
  have hk := (List.getElem?_eq_some_iff.1 hop).1
  have hbody : body.ops[Block.size (blocks pre) + k]? = some op := by
    have hops : Block.opsOf (blocks (pre ++ s :: rest)) =
        Block.opsOf (blocks pre) ++ (s.ops ++ Block.opsOf (blocks rest)) := by
      simp only [Stretch.blocks, List.map_append, List.map_cons, Block.opsOf_append,
        Block.opsOf_cons]
    rw [Block.ops_eq h.lines, hops, Block.size,
      List.getElem?_append_right (Nat.le_add_right _ _), Nat.add_sub_cancel_left,
      List.getElem?_append_left hk, hop]
  obtain ⟨hsize, hresolve⟩ := Body.resolve_ops hl.resolve
  have hlt : Block.size (blocks pre) + k < p.ops.size :=
    hsize ▸ (List.getElem?_eq_some_iff.1 hbody).1
  obtain ⟨op₀, hop₀, hresolved⟩ := hresolve _ _ (Array.getElem?_eq_getElem hlt)
  cases hbody.symm.trans hop₀
  exact ⟨_, Array.getElem?_eq_getElem hlt, hresolved⟩

/-- Control that comes to a stretch comes to each of its instructions. -/
theorem reachable_of_start (h : Certificate m e body (pre ++ s :: rest)) (hl : LaidOut m body p l)
    (hstart : (p.context m l.offsets).Reachable (Block.size (blocks pre))) {k : Nat}
    (hk : k < s.ops.length) :
    (p.context m l.offsets).Reachable (Block.size (blocks pre) + k) := by
  induction k with
  | zero => exact hstart
  | succ k ih =>
    have hop := List.getElem?_eq_getElem (Nat.lt_of_succ_lt hk)
    obtain ⟨i, next, hflows⟩ := (h.linked id).exists_flows
      (List.mem_append_right pre (List.mem_cons_self (a := s) (l := rest)))
    obtain ⟨op', hop', hresolve⟩ := h.exists_op hl hop
    have hu := (Op.isUnconditional_resolve hresolve).trans (hflows.isUnconditional hop hk)
    exact (ih (Nat.lt_of_succ_lt hk)).tail ⟨default, default, _, .next hop' hu⟩

/-- The label of a stretch has the position of its first instruction. -/
theorem positions_label (h : Certificate m e body (pre ++ s :: rest))
    (hlabel : s.label = some label) : body.positions[label]? = some (Block.size (blocks pre)) := by
  have hblocks : blocks (pre ++ s :: rest) = blocks pre ++ s.toBlock :: blocks rest :=
    List.map_append
  have hlines := h.lines
  have hnodup := h.nodup
  rw [hblocks] at hlines hnodup
  exact Block.positions_label hlines hnodup hlabel

theorem size_split (pre rest : List Stretch) (s : Stretch) :
    Block.size (blocks (pre ++ s :: rest)) =
      Block.size (blocks pre) + (s.ops.length + Block.size (blocks rest)) := by
  simp only [Stretch.blocks, List.map_append, List.map_cons, Block.size_append, Block.size_cons]

/-- **Control comes to a stretch** that may be entered from those in front of it. -/
theorem reachable_start (h : Certificate m e body (pre ++ s :: rest)) (hl : LaidOut m body p l)
    (hs : EnteredFrom body.handlers pre s)
    (hpre : ∀ i < Block.size (blocks pre), (p.context m l.offsets).Reachable i) :
    (p.context m l.offsets).Reachable (Block.size (blocks pre)) := by
  cases hs with
  | passed q hlast hq =>
    obtain ⟨op, hop, hu⟩ := hq
    obtain ⟨pre', rfl⟩ := List.getLast?_eq_some_iff.1 hlast
    rw [List.getLast?_eq_getElem?] at hop
    have hlen := (List.getElem?_eq_some_iff.1 hop).1
    have hend : Block.size (blocks (pre' ++ [q])) =
        Block.size (blocks pre') + (q.ops.length - 1) + 1 := by
      rw [size_split]
      change _ + (_ + 0) = _
      omega
    have hq : Certificate m e body (pre' ++ q :: s :: rest) := by
      rwa [List.append_assoc] at h
    obtain ⟨op', hop', hresolve⟩ := hq.exists_op hl hop
    rw [hend] at hpre ⊢
    have hreach := hpre _ (Nat.lt_succ_self _)
    exact hreach.tail ⟨default, default, _,
      .next hop' ((Op.isUnconditional_resolve hresolve).trans hu)⟩
  | jump q hq op hop label htarget hlabel =>
    obtain ⟨a, b, rfl⟩ := List.append_of_mem hq
    obtain ⟨k, hk⟩ := List.mem_iff_getElem?.1 hop
    have hlen := (List.getElem?_eq_some_iff.1 hk).1
    have hq : Certificate m e body (a ++ q :: (b ++ s :: rest)) := by
      rwa [List.append_assoc] at h
    obtain ⟨op', hop', hresolve⟩ := hq.exists_op hl hk
    obtain ⟨n, hn⟩ := List.mem_iff_getElem?.1 htarget
    obtain ⟨j, hj, hplace⟩ := getElem?_of_forall₂ (Op.resolve_targets hresolve).flip hn
    cases (Body.jumpTarget_ok hplace).1.symm.trans (h.positions_label hlabel)
    have hreach := hpre (Block.size (blocks a) + k) (by
      rw [size_split]
      omega)
    exact hreach.tail ⟨default, default, _, .jump hop' (List.mem_of_getElem? hj)⟩
  | raised r hr hlabel q hq hstart =>
    obtain ⟨a, b, rfl⟩ := List.append_of_mem hq
    have hq : Certificate m e body (a ++ q :: (b ++ s :: rest)) := by
      rwa [List.append_assoc] at h
    obtain ⟨n, hn⟩ := List.mem_iff_getElem?.1 hr
    obtain ⟨r', hr', hresolve⟩ :=
      getElem?_of_forall₂ (Body.resolve_handlers hl.resolve).flip hn
    obtain ⟨hlow, -, hhandler, -⟩ := Body.resolveHandler_ok hresolve
    have hmem := List.mem_of_getElem? hr'
    have hrange := Body.handler_of_resolve hl.resolve hmem
    have hlow' := Option.some.inj (hlow.symm.trans (hq.positions_label hstart))
    have hhandler' := Option.some.inj (hhandler.symm.trans (h.positions_label hlabel))
    -- the guard of the range covers the first instruction of the stretch where it begins
    have hne := List.length_pos_of_ne_nil
      (hq.nonempty q (List.mem_append_right a List.mem_cons_self))
    have hreach := hpre (Block.size (blocks a)) (by
      rw [size_split]
      omega)
    have hg : (⟨r'.start, r'.stop, r'.handler, _⟩ : Guard) ∈ Guard.ofHandlers p.handlers :=
      List.mem_map_of_mem hmem
    rw [← hhandler']
    refine hreach.tail ⟨default, default, _,
      .raisedBefore (g := ⟨r'.start, r'.stop, r'.handler, _⟩) hg ?_⟩
    simp only [Guard.covers, Bool.and_eq_true, decide_eq_true_eq]
    omega

/-- Control comes to the stretches that may be entered one after the other. -/
theorem reachable_of_entered (h : Certificate m e body ss) (hl : LaidOut m body p l)
    (hentered : Entered body.handlers pre rest) (hss : ss = pre ++ rest)
    (hpre : ∀ i < Block.size (blocks pre), (p.context m l.offsets).Reachable i) :
    ∀ i < Block.size (blocks ss), (p.context m l.offsets).Reachable i := by
  induction hentered with
  | nil pre =>
    rw [hss, List.append_nil]
    exact hpre
  | @cons pre s rest hs hrest ih =>
    subst hss
    refine ih (by rw [List.append_assoc, List.singleton_append]) fun i hi => ?_
    rw [size_split pre [] s] at hi
    rcases Nat.lt_or_ge i (Block.size (blocks pre)) with hlt | hge
    · exact hpre i hlt
    · have hk : i - Block.size (blocks pre) < s.ops.length := by
        change i < _ + (_ + 0) at hi
        omega
      have := h.reachable_of_start hl (h.reachable_start hl hs hpre) hk
      rwa [Nat.add_sub_cancel' hge] at this

/-- **Control may come to every instruction** of a certified body. -/
theorem reachable (h : Certificate m e body ss) (hl : LaidOut m body p l) :
    ∀ i < p.ops.size, (p.context m l.offsets).Reachable i := by
  obtain ⟨s, rest, rfl, -, hentered⟩ := h.first
  rw [(Body.resolve_ops hl.resolve).1, Block.ops_eq h.lines]
  refine h.reachable_of_entered hl hentered rfl fun i hi => ?_
  have hs : Certificate m e body ([] ++ s :: rest) := h
  rw [show i = Block.size (blocks []) + i from (Nat.zero_add i).symm]
  refine hs.reachable_of_start hl .refl ?_
  change i < Block.size [s.toBlock] at hi
  rw [Block.size_cons] at hi
  exact hi

end Reachable

/-! ## The inference -/

/-- **The inference accepts a certified body**, unless there are too many constants. -/
theorem onlyFull_ofProgram (h : Certificate m e body ss) (hl : LaidOut m body p l)
    (he : TypeState.entry m = .ok e) :
    Interner.OnlyFull (VerifierInfo.ofProgram m p l.offsets) := by
  obtain ⟨s, rest, hss, -⟩ := h.first
  have hsize : 0 < p.ops.size := by
    rw [(Body.resolve_ops hl.resolve).1, Block.ops_eq h.lines]
    exact Block.size_pos h.blocks_nonempty (by rw [hss]; exact List.cons_ne_nil _ _)
  obtain ⟨search, hsearch, -⟩ :=
    hl.infer_of_typing he hsize (h.typing hl) (h.staysInside hl) (h.reachable hl)
  intro b err b' hrun
  rw [VerifierInfo.ofProgram_eq he hsize hsearch] at hrun
  exact VerifierInfo.onlyFull_framesOf _ _ _ _ b err b' hrun

end Certificate

end Code

end ProxyForge
