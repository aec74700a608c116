import ProxyForge.Proofs.Draft.Members
import ProxyForge.Proofs.Exec.Machine
import ProxyForge.Proofs.Run.Blocks
/-!
# Code that carries a body

A body that is laid out is read back from its bytes as a routine that carries it
(`exists_carries`): its instructions stand at places that ascend, each with the places of its
labels, and so do the entries of its exception table. Straight instructions of the body are run
one behind the other (`Carries.leads`).
-/

namespace ProxyForge

namespace Exec

open Outcome
open Code (Block Body Handler JumpKind Label Layout Op Program)

variable {w : World} {r : Routine} {pc pc' : Nat} {next : Option Nat} {op : Op Nat}
  {ops ops' : List (Op Nat)} {s s' s'' : State} {v : Value} {rest : List Value}

/-! ## Steps -/

theorem step_advance (hfetch : r.fetch pc = some (op, some pc')) (h : s.advance w op = some s') :
    step w r (.running pc s) = some (.running pc' s') := by
  simp only [step, hfetch, Option.bind_eq_bind, Option.bind_some, h, Option.map_some]

theorem step_transfer (hfetch : r.fetch pc = some (op, next)) (h : s.advance w op = none) :
    step w r (.running pc s) = transfer w r pc next s op := by
  simp only [step, hfetch, Option.bind_eq_bind, Option.bind_some, h]

theorem Leads.refl (c : Config) : Leads w r c c :=
  Relation.ReflTransGen.refl

theorem Leads.trans {c c' c'' : Config} (h : Leads w r c c') (h' : Leads w r c' c'') :
    Leads w r c c'' :=
  Relation.ReflTransGen.trans h h'

theorem Leads.one {c c' : Config} (h : step w r c = some c') : Leads w r c c' :=
  .single h

/-! ## Straight code -/

theorem runOps_append : runOps w (ops ++ ops') s = (runOps w ops s).bind (runOps w ops') := by
  induction ops generalizing s with
  | nil => rfl
  | cons op ops ih =>
    rw [List.cons_append, runOps, runOps]
    cases s.advance w op with
    | none => rfl
    | some t => exact ih

/-- One piece behind the other. -/
theorem runOps_of_append (h : runOps w ops s = some s') (h' : runOps w ops' s' = some s'') :
    runOps w (ops ++ ops') s = some s'' := by
  rw [runOps_append, h]
  exact h'

/-- One instruction in front of a piece. -/
theorem runOps_of_cons (h : s.advance w op = some s') (h' : runOps w ops s' = some s'') :
    runOps w (op :: ops) s = some s'' := by
  rw [runOps, h]
  exact h'

/-- **From a place on there stand instructions**, one behind the other, in front of another
place. -/
inductive Routine.Stands (r : Routine) : Nat → List (Op Nat) → Nat → Prop
  | nil (pc : Nat) : Stands r pc [] pc
  | cons {pc next stop : Nat} {op : Op Nat} {ops : List (Op Nat)}
    (hfetch : r.fetch pc = some (op, some next)) (hrest : Stands r next ops stop) :
    Stands r pc (op :: ops) stop

/-- **Straight code is run** to its end. -/
theorem Routine.Stands.leads {stop : Nat} (h : r.Stands pc ops stop)
    (hrun : runOps w ops s = some s') : Leads w r (.running pc s) (.running stop s') := by
  induction h generalizing s with
  | nil =>
    cases hrun
    exact .refl _
  | cons hfetch _ ih =>
    obtain ⟨t, ht, hrest⟩ := Option.bind_eq_some_iff.1 hrun
    exact (Leads.one (step_advance hfetch ht)).trans (ih hrest)

/-! ## Carrying a body -/

/-- The place of a label. -/
def placeOf (body : Body) (place : Nat → Nat) (label : Label) : Option Nat :=
  body.positions[label]?.map place

/-- **A routine carries a body**: the instruction at each position stands at the place of that
position, with the places of its labels, and there are no others. -/
structure Carries (r : Routine) (body : Body) (place : Nat → Nat) : Prop where
  first : place 0 = 0
  ascending : ∀ i j, i < j → j ≤ body.ops.length → place i < place j
  fetch : ∀ k op, body.ops[k]? = some op → ∃ placed,
    r.fetch (place k) =
        some (placed, if k + 1 < body.ops.length then some (place (k + 1)) else none) ∧
      op.Placed (placeOf body place) placed
  only : ∀ pc, (r.fetch pc).isSome → ∃ k < body.ops.length, pc = place k
  handlers : List.Forall₂ (fun (h : Handler Label) (h' : Handler Nat) =>
    placeOf body place h.start = some h'.start ∧ placeOf body place h.stop = some h'.stop ∧
      placeOf body place h.handler = some h'.handler ∧ h'.caught = h.caught)
    body.handlers r.handlers

namespace Carries

variable {body : Body} {place : Nat → Nat} {i j k : Nat}

theorem place_le (h : Carries r body place) (hij : i ≤ j) (hj : j ≤ body.ops.length) :
    place i ≤ place j := by
  rcases Nat.lt_or_eq_of_le hij with hlt | rfl
  · exact Nat.le_of_lt (h.ascending i j hlt hj)
  · exact Nat.le_refl _

theorem place_lt_iff (h : Carries r body place) (hi : i ≤ body.ops.length)
    (hj : j ≤ body.ops.length) : place i < place j ↔ i < j := by
  refine ⟨fun hlt => Nat.lt_of_not_le fun hle => ?_, fun hlt => h.ascending i j hlt hj⟩
  exact Nat.lt_irrefl _ (Nat.lt_of_lt_of_le hlt (h.place_le hle hi))

theorem place_le_iff (h : Carries r body place) (hi : i ≤ body.ops.length)
    (hj : j ≤ body.ops.length) : place i ≤ place j ↔ i ≤ j := by
  rw [← Nat.not_lt, ← Nat.not_lt, h.place_lt_iff hj hi]

/-- An instruction without labels stands there as it is. -/
theorem fetch_plain (h : Carries r body place) (hop : body.ops[k]? = some op)
    (htargets : op.targets = []) : r.fetch (place k) =
      some (op, if k + 1 < body.ops.length then some (place (k + 1)) else none) := by
  obtain ⟨placed, hfetch, hplaced⟩ := h.fetch k op hop
  cases hplaced with
  | same => exact hfetch
  | jump _ | lookupSwitch _ _ _ => cases htargets

/-- A jump leads to the place of its label. -/
theorem fetch_jump (h : Carries r body place) {kind : JumpKind} {label : Label}
    (hop : body.ops[k]? = some (.jump kind label)) (hlabel : body.positions[label]? = some j) :
    r.fetch (place k) = some (.jump kind (place j),
      if k + 1 < body.ops.length then some (place (k + 1)) else none) := by
  obtain ⟨placed, hfetch, hplaced⟩ := h.fetch k _ hop
  cases hplaced with
  | same htargets => cases htargets
  | jump htarget =>
    rw [placeOf, hlabel] at htarget
    cases htarget
    exact hfetch

/-- **Instructions without labels stand one behind the other.** -/
theorem stands (h : Carries r body place)
    (hops : ∀ (k : Nat) (op : Op Nat), ops[k]? = some op → body.ops[i + k]? = some op)
    (hplain : ∀ op ∈ ops, op.targets = []) (hend : i + ops.length < body.ops.length) :
    r.Stands (place i) ops (place (i + ops.length)) := by
  induction ops generalizing i with
  | nil => exact .nil _
  | cons op ops ih =>
    rw [List.length_cons] at hend ⊢
    have hfetch := h.fetch_plain (hops 0 op rfl) (hplain op List.mem_cons_self)
    rw [Nat.add_zero, if_pos (by omega)] at hfetch
    refine .cons hfetch ?_
    rw [show i + (ops.length + 1) = i + 1 + ops.length by omega]
    refine ih (fun k op' hk => ?_) (fun op' hop' => hplain op' (List.mem_cons_of_mem op hop'))
      (by omega)
    rw [show i + 1 + k = i + (k + 1) by omega]
    exact hops (k + 1) op' hk

/-- **Straight instructions of the body are run.** -/
theorem leads (h : Carries r body place)
    (hops : ∀ (k : Nat) (op : Op Nat), ops[k]? = some op → body.ops[i + k]? = some op)
    (hplain : ∀ op ∈ ops, op.targets = []) (hend : i + ops.length < body.ops.length)
    (hrun : runOps w ops s = some s') :
    Leads w r (.running (place i) s) (.running (place (i + ops.length)) s') :=
  (h.stands hops hplain hend).leads hrun

/-- **The exception table** has the handlers of the body, in their order. -/
theorem handlers_eq (h : Carries r body place) (position : Label → Nat)
    (hposition : ∀ g ∈ body.handlers, body.positions[g.start]? = some (position g.start) ∧
      body.positions[g.stop]? = some (position g.stop) ∧
      body.positions[g.handler]? = some (position g.handler)) :
    r.handlers = body.handlers.map fun g => ⟨place (position g.start), place (position g.stop),
      place (position g.handler), g.caught⟩ := by
  refine List.forall₂_eq_eq_eq ▸ List.forall₂_map_right_iff.2 (List.Forall₂.flip ?_)
  refine forall₂_imp_of_mem h.handlers fun g hg g' _ ⟨hstart, hstop, hhandler, hcaught⟩ => ?_
  obtain ⟨hstart', hstop', hhandler'⟩ := hposition g hg
  rw [placeOf, hstart', Option.map_some] at hstart
  rw [placeOf, hstop', Option.map_some] at hstop
  rw [placeOf, hhandler', Option.map_some] at hhandler
  obtain ⟨start, stop, handler, caught⟩ := g'
  change (⟨start, stop, handler, caught⟩ : Handler Nat) = _
  rw [Option.some.inj hstart, Option.some.inj hstop, Option.some.inj hhandler, ← hcaught]

end Carries

/-! ## Blocks -/

section blocks

variable {body : Body} {bs pre post : List Block} {b : Block} {label : Label} {k : Nat}

/-- The label of a block stands for the position behind the blocks in front. -/
theorem position_of_split (hlines : body.lines = Block.linesOf bs)
    (hlabels : (Block.labelsOf bs).Nodup) (hsplit : bs = pre ++ b :: post)
    (hlabel : b.label = some label) : body.positions[label]? = some (Block.size pre) := by
  subst hsplit
  exact Block.positions_label hlines hlabels hlabel

/-- The instructions of a block stand behind those of the blocks in front. -/
theorem getElem?_of_split (hlines : body.lines = Block.linesOf bs) (hsplit : bs = pre ++ b :: post)
    {op : Op Label} (hop : b.ops[k]? = some op) : body.ops[Block.size pre + k]? = some op := by
  rw [Block.ops_eq hlines, hsplit, Block.opsOf_append, Block.opsOf_cons, Block.size,
    List.getElem?_append_right (Nat.le_add_right _ _), Nat.add_sub_cancel_left,
    List.getElem?_append_left (List.getElem?_eq_some_iff.1 hop).1]
  exact hop

/-- **The front of a block is run**, from the label of the block up to an instruction. -/
theorem Carries.leads_front {place : Nat → Nat} (h : Carries r body place)
    (hlines : body.lines = Block.linesOf bs) (hsplit : bs = pre ++ b :: post)
    (front : List (Op Label)) {back : List (Op Label)} (hops : b.ops = front ++ op :: back)
    (hplain : ∀ op ∈ front, op.targets = []) (hrun : runOps w front s = some s') :
    Leads w r (.running (place (Block.size pre)) s)
        (.running (place (Block.size pre + front.length)) s') ∧
      body.ops[Block.size pre + front.length]? = some op := by
  have hop : body.ops[Block.size pre + front.length]? = some op := by
    refine getElem?_of_split hlines hsplit ?_
    rw [hops, List.getElem?_append_right (Nat.le_refl _), Nat.sub_self]
    rfl
  refine ⟨h.leads (fun k op' hk => getElem?_of_split hlines hsplit ?_) hplain
    (List.getElem?_eq_some_iff.1 hop).1 hrun, hop⟩
  rw [hops, List.getElem?_append_left (List.getElem?_eq_some_iff.1 hk).1]
  exact hk

end blocks

/-! ## Control -/

section control

variable {body : Body} {place : Nat → Nat} {k j : Nat} {label : Label}

/-- The range of a handler holds the places of its positions. -/
theorem Carries.spans_place (h : Carries r body place) {i target : Nat} {caught : Option String}
    (hi : i ≤ body.ops.length) (hj : j ≤ body.ops.length) (hk : k ≤ body.ops.length) :
    spans ⟨place i, place j, target, caught⟩ (place k) = decide (i ≤ k ∧ k < j) := by
  unfold spans
  simp only [h.place_le_iff hi hk, h.place_lt_iff hk hj]

/-- An instruction of the body passes control on. -/
theorem Carries.step_plain (h : Carries r body place) (hop : body.ops[k]? = some op)
    (htargets : op.targets = []) (hnext : k + 1 < body.ops.length)
    (hadvance : s.advance w op = some s') :
    step w r (.running (place k) s) = some (.running (place (k + 1)) s') := by
  refine step_advance ?_ hadvance
  rw [h.fetch_plain hop htargets, if_pos hnext]

/-- Control is passed to a label. -/
theorem Carries.step_jumps (h : Carries r body place)
    (hop : body.ops[k]? = some (.jump .always label)) (hlabel : body.positions[label]? = some j) :
    step w r (.running (place k) s) = some (.running (place j) s) :=
  step_transfer (h.fetch_jump hop hlabel) rfl

/-- A value is compared with `null`. -/
theorem Carries.step_tests (h : Carries r body place)
    (hop : body.ops[k]? = some (.jump .ifNonNull label)) (hlabel : body.positions[label]? = some j)
    (hnext : k + 1 < body.ops.length) (hstack : s.stack = v :: rest) :
    step w r (.running (place k) s) = some (.running (place (if v = .null then k + 1 else j))
      ({ s with stack := rest }.record (.tested v))) := by
  rw [step_transfer (h.fetch_jump hop hlabel) rfl]
  simp only [if_pos hnext, transfer, hstack, Option.map_some, apply_ite place]
  split
  · rfl
  · rfl

/-- A value is thrown. -/
theorem Carries.step_throws (h : Carries r body place) (hop : body.ops[k]? = some .throw)
    (hstack : s.stack = v :: rest) :
    step w r (.running (place k) s) = some (raise w r (place k) v s) := by
  rw [step_transfer (h.fetch_plain hop rfl) rfl, transfer, hstack]

/-- An exception is thrown by an instruction of the body. -/
theorem Carries.throws (h : Carries r body place) (hop : body.ops[k]? = some .throw)
    (hstack : s.stack = v :: rest) :
    Leads w r (.running (place k) s) (raise w r (place k) v s) :=
  .one (h.step_throws hop hstack)

/-- A value is returned. -/
theorem Carries.returns (h : Carries r body place)
    (hop : body.ops[k]? = some (.ret (some v.kind))) (hstack : s.stack = v :: rest) :
    Leads w r (.running (place k) s) (.ended (.returned (some v)) s) := by
  refine .one ((step_transfer (h.fetch_plain hop rfl) rfl).trans ?_)
  simp only [transfer, hstack, if_true]

/-- Nothing is returned. -/
theorem Carries.returns_none (h : Carries r body place) (hop : body.ops[k]? = some (.ret none)) :
    Leads w r (.running (place k) s) (.ended (.returned none) s) :=
  .one (step_transfer (h.fetch_plain hop rfl) rfl)

/-- **A value is compared with `null`**, and control goes on, or to a label. -/
theorem Carries.tests (h : Carries r body place)
    (hop : body.ops[k]? = some (.jump .ifNonNull label)) (hlabel : body.positions[label]? = some j)
    (hnext : k + 1 < body.ops.length) (hstack : s.stack = v :: rest) :
    Leads w r (.running (place k) s) (.running (place (if v = .null then k + 1 else j))
      ({ s with stack := rest }.record (.tested v))) :=
  .one (h.step_tests hop hlabel hnext hstack)

/-- **A switch leads to the label of a case.** -/
theorem Carries.switches (h : Carries r body place) {fallback : Label}
    {cases : List (Int32 × Label)} {key : Int32}
    (hop : body.ops[k]? = some (.lookupSwitch fallback cases)) (hcase : (key, label) ∈ cases)
    (hlabel : body.positions[label]? = some j) (hstack : s.stack = .int key :: rest) :
    Leads w r (.running (place k) s) (.running (place j) { s with stack := rest }) := by
  obtain ⟨placed, hfetch, hplaced⟩ := h.fetch k _ hop
  cases hplaced with
  | same htargets => cases htargets
  | lookupSwitch _ hsorted hcases =>
    refine .one ((step_transfer hfetch rfl).trans ?_)
    obtain ⟨⟨key', target⟩, hmem, heq⟩ := List.mem_map.1 (hcases.mem_iff.2
      (List.mem_map_of_mem (f := fun (key, target) => (key, placeOf body place target)) hcase))
    obtain ⟨rfl, htarget⟩ := Prod.mk.inj heq
    rw [placeOf, hlabel] at htarget
    simp only [transfer, hstack]
    rw [Run.select_of_mem hsorted hmem, Option.some.inj htarget]

end control

/-! ## Reading a body back -/

/-- Where the first line at an offset stands. -/
theorem dropWhile_ne {lines : List (Nat × Op Nat)} (hapart : (lines.map Prod.fst).Nodup) {k : Nat}
    {line : Nat × Op Nat} (hline : lines[k]? = some line) :
    (lines.dropWhile fun l => l.1 ≠ line.1) = line :: lines.drop (k + 1) := by
  induction lines generalizing k with
  | nil => cases hline
  | cons head lines ih =>
    rw [List.map_cons, List.nodup_cons] at hapart
    cases k with
    | zero =>
      cases hline
      rw [List.dropWhile_cons_of_neg (by simp)]
      rfl
    | succ k =>
      have hne : head.1 ≠ line.1 := fun heq =>
        hapart.1 (heq ▸ List.mem_map_of_mem (List.mem_of_getElem? hline))
      rw [List.dropWhile_cons_of_pos (by simp [hne]), ih hapart.2 hline]
      rfl

/-- The instruction at the offset of a line. -/
theorem Routine.fetch_eq (hapart : (r.lines.map Prod.fst).Nodup)
    (hline : r.lines[k]? = some (pc, op)) :
    r.fetch pc = some (op, (r.lines[k + 1]?).map Prod.fst) := by
  rw [Routine.fetch, dropWhile_ne hapart hline]
  dsimp only
  rw [List.head?_drop]

/-- An instruction is at the offset of a line. -/
theorem Routine.exists_line (h : (r.fetch pc).isSome) :
    ∃ (k : Nat) (op : Op Nat), r.lines[k]? = some (pc, op) := by
  unfold Routine.fetch at h
  split at h
  · cases h
  · rename_i pc' op rest hdrop
    have hmem : (pc', op) ∈ r.lines := by
      rw [← List.takeWhile_append_dropWhile (p := fun line => decide (line.1 ≠ pc)) (l := r.lines),
        hdrop]
      exact List.mem_append_right _ List.mem_cons_self
    have heq : pc' = pc := by
      have hhead :=
        List.head?_dropWhile_not (fun line : Nat × Op Nat => decide (line.1 ≠ pc)) r.lines
      rw [hdrop] at hhead
      simpa using hhead
    obtain ⟨k, hk⟩ := List.mem_iff_getElem?.1 hmem
    exact ⟨k, op, heq ▸ hk⟩

/-- Each element of a list is mapped. -/
theorem exists_mapM_some {α β : Type} {f : α → Option β} {R : α → β → Prop} {xs : List α}
    (h : ∀ x ∈ xs, ∃ y, f x = some y ∧ R x y) :
    ∃ ys, xs.mapM f = some ys ∧ List.Forall₂ R xs ys := by
  induction xs with
  | nil => exact ⟨[], rfl, .nil⟩
  | cons x xs ih =>
    obtain ⟨y, hy, hxy⟩ := h x List.mem_cons_self
    obtain ⟨ys, hys, hall⟩ := ih fun x' hx' => h x' (List.mem_cons_of_mem x hx')
    refine ⟨y :: ys, ?_, .cons hxy hall⟩
    rw [List.mapM_cons, hy, hys]
    rfl

/-- An entry of the exception table is read as the handler that it stands for. -/
theorem handler_of_shown {pool : Pool} {body : Body} {offsets : Array Nat} {h : Handler Label}
    {entry : HandlerEntry} (hzero : ∀ c, pool.get 0 ≠ .ok c)
    (hshown : Code.HandlerShown pool body offsets h entry) : Routine.handler pool entry =
      some ⟨entry.start.toNat, entry.stop.toNat, entry.handler.toNat, h.caught⟩ := by
  unfold Routine.handler
  cases hcaught : h.caught with
  | none => rw [if_pos (hshown.any hcaught)]
  | some name =>
    have hname := hshown.caught name hcaught
    have hne : entry.catchType ≠ 0 := fun heq => by
      rw [heq] at hname
      obtain ⟨c, hget, -⟩ := bind_eq_ok.1 hname
      exact hzero c hget
    rw [if_neg hne, hname]
    rfl

/-- **Lines that stand at ascending places** carry a body. -/
theorem carries_of_lines {body : Body} {place : Nat → Nat} (hfirst : place 0 = 0)
    (hascending : ∀ i j, i < j → j ≤ body.ops.length → place i < place j)
    (hlength : r.lines.length = body.ops.length)
    (hlines : ∀ (k : Nat) (line : Nat × Op Nat), r.lines[k]? = some line → line.1 = place k ∧
      ∃ op, body.ops[k]? = some op ∧ op.Placed (placeOf body place) line.2)
    (hhandlers : List.Forall₂ (fun (h : Handler Label) (h' : Handler Nat) =>
      placeOf body place h.start = some h'.start ∧ placeOf body place h.stop = some h'.stop ∧
        placeOf body place h.handler = some h'.handler ∧ h'.caught = h.caught)
      body.handlers r.handlers) : Carries r body place := by
  have hapart : (r.lines.map Prod.fst).Nodup := by
    refine List.Pairwise.imp Nat.ne_of_lt (List.pairwise_iff_getElem.2 fun i j hi hj hij => ?_)
    rw [List.length_map] at hi hj
    rw [List.getElem_map, List.getElem_map, (hlines i _ (List.getElem?_eq_getElem hi)).1,
      (hlines j _ (List.getElem?_eq_getElem hj)).1]
    exact hascending i j hij (by omega)
  refine ⟨hfirst, hascending, fun k op hop => ?_, fun pc hpc => ?_, hhandlers⟩
  · have hk : k < r.lines.length := hlength ▸ (List.getElem?_eq_some_iff.1 hop).1
    obtain ⟨hplace, op', hop', hplaced⟩ := hlines k _ (List.getElem?_eq_getElem hk)
    cases hop.symm.trans hop'
    refine ⟨r.lines[k].2, ?_, hplaced⟩
    rw [← hplace]
    refine (Routine.fetch_eq hapart (List.getElem?_eq_getElem hk)).trans ?_
    split
    · rename_i hnext
      have hnext' : k + 1 < r.lines.length := by omega
      rw [List.getElem?_eq_getElem hnext', Option.map_some,
        (hlines (k + 1) _ (List.getElem?_eq_getElem hnext')).1]
      rfl
    · rw [List.getElem?_eq_none (by omega)]
      rfl
  · obtain ⟨k, op, hk⟩ := Routine.exists_line hpc
    exact ⟨k, hlength ▸ (List.getElem?_eq_some_iff.1 hk).1, (hlines k _ hk).1⟩

/-- **A body that is laid out is read back** as a routine that carries it. -/
theorem exists_carries {name : String} {body : Body} {p : Program} {l : Layout}
    {b b' later : PoolBuilder} {code : CodeBody} (hprogram : body.program name = .ok p)
    (hlayout : Layout.ofProgram name p b = .ok l b') (hlater : b'.Grows later)
    (hzero : ∀ c, later.pool.get 0 ≠ .ok c) (hcode : code.code = l.code)
    (hhandlers : List.Forall₂ (Code.HandlerShown later.pool body l.offsets) body.handlers
      code.handlers) :
    ∃ r place, Routine.ofBody later.pool code = some r ∧ Carries r body place := by
  obtain ⟨is, hdecode, hoffsets, hops⟩ :=
    Layout.written_of_ofProgram (mapError_eq_ok.1 hprogram) hlayout hlater
  obtain ⟨hmeasured, hlen⟩ := Layout.measured_of_ofProgram hlayout
  have hsize := (Body.resolve_ops (mapError_eq_ok.1 hprogram)).1
  -- a label that has an offset has the place of its position
  have hplace : ∀ label offset, body.offsetOf l.offsets label = some offset →
      placeOf body (Layout.offsetAt l.offsets) label = some offset := by
    intro label offset h
    obtain ⟨k, hk, hat⟩ := Option.bind_eq_some_iff.1 h
    rw [placeOf, hk, Option.map_some, Layout.offsetAt, Array.getD_eq_getD_getElem?, hat]
    rfl
  -- every instruction is read, and every entry of the exception table
  obtain ⟨lines, hlines, hread⟩ := exists_mapM_some (f := Routine.line later.pool)
    (R := fun i line => line.1 = i.offset ∧ i.op later.pool = some line.2)
    (fun i (hi : i ∈ is) => by
      obtain ⟨k, hk⟩ := List.mem_iff_getElem?.1 hi
      obtain ⟨op, hop, hwritten⟩ := getElem?_of_forall₂ hops hk
      obtain ⟨placed, hplaced, -⟩ := Instruction.exists_op hwritten
      exact ⟨(i.offset, placed), by rw [Routine.line, hplaced]; rfl, rfl, hplaced⟩)
  obtain ⟨handlers, hentries, hranges⟩ := exists_mapM_some (f := Routine.handler later.pool)
    (R := fun entry h => Routine.handler later.pool entry = some h)
    (fun entry (hentry : entry ∈ code.handlers) => by
      obtain ⟨k, hk⟩ := List.mem_iff_getElem?.1 hentry
      obtain ⟨h, -, hshown⟩ := getElem?_of_forall₂ hhandlers hk
      exact ⟨_, handler_of_shown hzero hshown, handler_of_shown hzero hshown⟩)
  refine ⟨⟨lines, handlers⟩, Layout.offsetAt l.offsets, ?_, carries_of_lines hmeasured.first
    (fun i j hij hj => hmeasured.lt_of_lt hij (by omega))
    (hread.length_eq.symm.trans hops.length_eq.symm) (fun k line hline => ?_) ?_⟩
  · rw [Routine.ofBody, CodeBody.instructions, hcode, hdecode]
    exact Option.bind_eq_some_iff.2 ⟨is, rfl, Option.bind_eq_some_iff.2 ⟨lines, hlines,
      Option.bind_eq_some_iff.2 ⟨handlers, hentries, rfl⟩⟩⟩
  · obtain ⟨i, hi, hoffset, hop⟩ := getElem?_of_forall₂ hread hline
    obtain ⟨op, hop', hwritten⟩ := getElem?_of_forall₂ hops hi
    obtain ⟨placed, hplaced, hsame⟩ := Instruction.exists_op hwritten
    cases hop.symm.trans hplaced
    refine ⟨?_, op, hop', hsame.imp hplace⟩
    rw [hoffset, Layout.offsetAt, Array.getD_eq_getD_getElem?, ← Array.getElem?_toList, hoffsets,
      List.getElem?_append_left (by simpa using (List.getElem?_eq_some_iff.1 hi).1),
      List.getElem?_map, hi]
    rfl
  · refine List.forall₂_iff_get.2 ⟨hhandlers.length_eq.trans hranges.length_eq, fun k hk hk' => ?_⟩
    obtain ⟨entry, hentry, hrange⟩ := getElem?_of_forall₂ hranges (List.getElem?_eq_getElem hk')
    obtain ⟨h, hh, hshown⟩ := getElem?_of_forall₂ hhandlers hentry
    cases (List.getElem?_eq_getElem hk).symm.trans hh
    have heq := (handler_of_shown hzero hshown).symm.trans hrange
    rw [List.get_eq_getElem, List.get_eq_getElem, ← Option.some.inj heq]
    exact ⟨hplace _ _ hshown.start, hplace _ _ hshown.stop, hplace _ _ hshown.handler, rfl⟩

end Exec

end ProxyForge
