import ProxyForge.Proofs.Inference.Completeness
import ProxyForge.Proofs.Layout.Blocks
/-!
# Typings block by block

A `Stretch` is a block with what is known in front of it. If the instructions of every stretch run
from there, and every way out of them leads to a stretch that may be entered so, the stretches are
a certificate for the body (`Certificate`): from it come a typing for all instructions
(`Certificate.exists_typing`) and their reachability, so the inference accepts the body.
-/

namespace ProxyForge

namespace Code

open SlotType (top)
open Outcome

/-- A block, what is known in front of it, and the handlers of what its instructions raise. -/
structure Stretch extends Block where
  entry : TypeState
  guards : List Label

/-- What a handler knows of a state in which something was raised. -/
def TypeState.raised (s : TypeState) : TypeState :=
  ⟨s.locals, [.object objectClass]⟩

namespace Stretch

/-- The blocks of stretches. -/
def blocks (ss : List Stretch) : List Block :=
  ss.map toBlock

/-- A stretch with the label may be entered in the state. -/
def Accepts (ss : List Stretch) (label : Label) (t : TypeState) : Prop :=
  ∃ s ∈ ss, s.label = some label ∧ t ≤ s.entry

variable {m : MethodHeader} {offset : Nat → Nat} {ss rest pre mid post : List Stretch}
  {guards : List Label} {i k : Nat} {s t : TypeState} {op : Op Label} {ops : List (Op Label)}
  {next : Option TypeState}

theorem Accepts.mono {label : Label} (h : Accepts ss label t) (hle : s ≤ t) :
    Accepts ss label s := by
  obtain ⟨stretch, hmem, hlabel, hentry⟩ := h
  exact ⟨stretch, hmem, hlabel, le_trans hle hentry⟩

/-! ## Instructions of a stretch -/

/-- **An instruction runs**, and where it jumps or what it raises is accepted. -/
structure Step (m : MethodHeader) (offset : Nat → Nat) (ss : List Stretch) (guards : List Label)
    (i : Nat) (op : Op Label) (s t : TypeState) : Prop where
  step : s.step m (offset i) op = .ok t
  targets : ∀ label ∈ op.targets, Accepts ss label t
  before : ∀ label ∈ guards, Accepts ss label s.raised
  after : ∀ label ∈ guards, Accepts ss label t.raised

/-- **Instructions run one behind the other**, from a position and a state on. What is passed on
behind the last one is a state, or nothing if control does not come there. -/
inductive Flows (m : MethodHeader) (offset : Nat → Nat) (ss : List Stretch)
    (guards : List Label) : Nat → TypeState → List (Op Label) → Option TypeState → Prop
  | done (i : Nat) (s : TypeState) : Flows m offset ss guards i s [] (some s)
  | on {i : Nat} {s t : TypeState} {op : Op Label} {ops : List (Op Label)}
      {next : Option TypeState} (hstep : Step m offset ss guards i op s t)
      (hop : op.isUnconditional = false) (hops : Flows m offset ss guards (i + 1) t ops next) :
      Flows m offset ss guards i s (op :: ops) next
  | stop {i : Nat} {s t : TypeState} {op : Op Label} (hstep : Step m offset ss guards i op s t)
      (hop : op.isUnconditional = true) : Flows m offset ss guards i s [op] none

/-- **Stretches follow one another**: what one passes on is accepted by the one behind it. -/
inductive Linked (m : MethodHeader) (offset : Nat → Nat) (ss : List Stretch) :
    Nat → List Stretch → Prop
  | nil (i : Nat) : Linked m offset ss i []
  | cons {i : Nat} {s : Stretch} {rest : List Stretch} {next : Option TypeState}
      (hflows : Flows m offset ss s.guards i s.entry s.ops next)
      (hnext : ∀ t, next = some t → ∃ s' rest', rest = s' :: rest' ∧ t ≤ s'.entry)
      (hrest : Linked m offset ss (i + s.ops.length) rest) : Linked m offset ss i (s :: rest)

/-- The jumps of instructions that run lead to stretches. -/
theorem Flows.target_mem (h : Flows m offset ss guards i s ops next) (hop : op ∈ ops)
    {label : Label} (hlabel : label ∈ op.targets) : ∃ t, Accepts ss label t := by
  induction h with
  | done => exact absurd hop List.not_mem_nil
  | on hstep _ _ ih =>
    rcases List.mem_cons.1 hop with rfl | hop
    · exact ⟨_, hstep.targets label hlabel⟩
    · exact ih hop
  | stop hstep =>
    obtain rfl := List.mem_singleton.1 hop
    exact ⟨_, hstep.targets label hlabel⟩

/-- Each of the stretches runs from what is known in front of it. -/
theorem Linked.exists_flows (h : Linked m offset ss i rest) {s : Stretch} (hs : s ∈ rest) :
    ∃ i next, Flows m offset ss s.guards i s.entry s.ops next := by
  induction h with
  | nil => exact absurd hs List.not_mem_nil
  | cons hflows _ _ ih =>
    rcases List.mem_cons.1 hs with rfl | hs
    · exact ⟨_, _, hflows⟩
    · exact ih hs

/-- Control passes on from every instruction but the last. -/
theorem Flows.isUnconditional (h : Flows m offset ss guards i s ops next)
    (hop : ops[k]? = some op) (hk : k + 1 < ops.length) : op.isUnconditional = false := by
  induction h generalizing k with
  | done => simp at hop
  | on hstep hu _ ih =>
    cases k with
    | zero =>
      cases hop
      exact hu
    | succ k => exact ih hop (Nat.lt_of_succ_lt_succ hk)
  | stop => exact absurd hk (by simp)

/-! ## Rows -/

/-- An instruction with what is known in front of it and the handlers of what it raises. -/
structure Row where
  op : Op Label
  state : TypeState
  guards : List Label

/-- The state behind an instruction that runs. -/
def after (m : MethodHeader) (offset : Nat) (s : TypeState) (op : Op Label) : TypeState :=
  match s.step m offset op with
  | .ok t => t
  | .error _ => s

theorem after_eq {offset : Nat} (h : s.step m offset op = .ok t) : after m offset s op = t := by
  unfold after
  rw [h]

/-- The rows of instructions from a position and a state on. -/
def trace (m : MethodHeader) (offset : Nat → Nat) (guards : List Label) :
    Nat → TypeState → List (Op Label) → List Row
  | _, _, [] => []
  | i, s, op :: ops => ⟨op, s, guards⟩ :: trace m offset guards (i + 1) (after m (offset i) s op) ops

/-- The rows of stretches from a position on. -/
def rows (m : MethodHeader) (offset : Nat → Nat) : Nat → List Stretch → List Row
  | _, [] => []
  | i, s :: rest =>
    trace m offset s.guards i s.entry s.ops ++ rows m offset (i + s.ops.length) rest

theorem map_op_trace (guards : List Label) (i : Nat) (s : TypeState) (ops : List (Op Label)) :
    (trace m offset guards i s ops).map Row.op = ops := by
  induction ops generalizing i s with
  | nil => rfl
  | cons op ops ih => exact congrArg (op :: ·) (ih _ _)

theorem length_trace (m : MethodHeader) (offset : Nat → Nat) (guards : List Label) (i : Nat)
    (s : TypeState) (ops : List (Op Label)) :
    (trace m offset guards i s ops).length = ops.length := by
  rw [← List.length_map, map_op_trace]

theorem guards_of_mem_trace {row : Row} (h : row ∈ trace m offset guards i s ops) :
    row.guards = guards := by
  induction ops generalizing i s with
  | nil => exact absurd h List.not_mem_nil
  | cons op ops ih =>
    rcases List.mem_cons.1 h with rfl | h
    · rfl
    · exact ih h

theorem map_op_rows (m : MethodHeader) (offset : Nat → Nat) (i : Nat) (ss : List Stretch) :
    (rows m offset i ss).map Row.op = Block.opsOf (blocks ss) := by
  induction ss generalizing i with
  | nil => rfl
  | cons s rest ih =>
    rw [rows, List.map_append, map_op_trace, ih]
    rfl

theorem length_rows (i : Nat) (ss : List Stretch) :
    (rows m offset i ss).length = Block.size (blocks ss) := by
  rw [← List.length_map, map_op_rows]
  rfl

theorem rows_append (i : Nat) (pre post : List Stretch) :
    rows m offset i (pre ++ post) =
      rows m offset i pre ++ rows m offset (i + Block.size (blocks pre)) post := by
  induction pre generalizing i with
  | nil => rfl
  | cons s pre ih =>
    rw [List.cons_append, rows, ih, rows, List.append_assoc]
    congr 3
    change _ = i + Block.size (s.toBlock :: blocks pre)
    rw [Block.size_cons]
    omega

theorem exists_of_mem_rows {row : Row} (h : row ∈ rows m offset i ss) :
    ∃ s ∈ ss, row.guards = s.guards := by
  induction ss generalizing i with
  | nil => exact absurd h List.not_mem_nil
  | cons s rest ih =>
    rcases List.mem_append.1 h with h | h
    · exact ⟨s, List.mem_cons_self, guards_of_mem_trace h⟩
    · obtain ⟨s', hs', hguards⟩ := ih h
      exact ⟨s', List.mem_cons_of_mem s hs', hguards⟩

/-- The first row of a stretch knows what is known in front of it. -/
theorem row_of_split (m : MethodHeader) (offset : Nat → Nat) (pre post : List Stretch) (i : Nat)
    {s : Stretch} (hne : s.ops ≠ []) :
    ∃ row, (rows m offset i (pre ++ s :: post))[Block.size (blocks pre)]? = some row ∧
      row.state = s.entry := by
  obtain ⟨op, ops, hops⟩ := List.exists_cons_of_ne_nil hne
  refine ⟨⟨op, s.entry, s.guards⟩, ?_, rfl⟩
  rw [rows_append, List.getElem?_append_right (by rw [length_rows]), length_rows, Nat.sub_self,
    rows, hops]
  rfl

/-- The handlers of a range are those of its rows. -/
theorem guards_of_range {row : Row} {label : Label} (hmid : ∀ s ∈ mid, label ∈ s.guards)
    (hlow : Block.size (blocks pre) ≤ i)
    (hhigh : i < Block.size (blocks pre) + Block.size (blocks mid))
    (hrow : (rows m offset 0 (pre ++ (mid ++ post)))[i]? = some row) : label ∈ row.guards := by
  rw [rows_append, List.getElem?_append_right (by rwa [length_rows]), length_rows, rows_append,
    List.getElem?_append_left (by rw [length_rows]; omega)] at hrow
  obtain ⟨s, hs, hguards⟩ := exists_of_mem_rows (List.mem_of_getElem? hrow)
  rw [hguards]
  exact hmid s hs

/-- **A row of a stretch**: its instruction runs, and what it passes on is known in the row behind
or passed on by the stretch. -/
theorem Flows.row (h : Flows m offset ss guards i s ops next) (hs : s.Paired) {row : Row}
    (hrow : (trace m offset guards i s ops)[k]? = some row) :
    row.state.Paired ∧ ∃ t, Step m offset ss guards (i + k) row.op row.state t ∧
      (row.op.isUnconditional = false →
        (∃ row', (trace m offset guards i s ops)[k + 1]? = some row' ∧ row'.state = t) ∨
        k + 1 = ops.length ∧ next = some t) := by
  induction h generalizing k with
  | done => simp [trace] at hrow
  | @on i s t op ops next hstep hop hops ih =>
    have hafter := after_eq hstep.step
    cases k with
    | zero =>
      cases hrow
      refine ⟨hs, t, hstep, fun _ => ?_⟩
      cases hops with
      | done => exact .inr ⟨rfl, rfl⟩
      | on =>
        left
        rw [trace, hafter]
        exact ⟨_, rfl, rfl⟩
      | stop =>
        left
        rw [trace, hafter]
        exact ⟨_, rfl, rfl⟩
    | succ k =>
      rw [trace, hafter] at hrow ⊢
      obtain ⟨hpaired, t', hstep', hnext⟩ := ih (hs.step hstep.step) hrow
      rw [Nat.add_right_comm] at hstep'
      refine ⟨hpaired, t', hstep', fun hu => ?_⟩
      exact (hnext hu).imp id fun h => ⟨congrArg (· + 1) h.1, h.2⟩
  | stop hstep hop =>
    cases k with
    | zero =>
      cases hrow
      exact ⟨hs, _, hstep, fun hu => absurd (hop.symm.trans hu) Bool.noConfusion⟩
    | succ k => simp [trace] at hrow

/-- **A row of stretches that follow one another**: its instruction runs, and what it passes on is
below what is known in the row behind. -/
theorem Linked.row (h : Linked m offset ss i rest) (hpaired : ∀ s ∈ rest, s.entry.Paired)
    (hne : ∀ s ∈ rest, s.ops ≠ []) {row : Row} (hrow : (rows m offset i rest)[k]? = some row) :
    row.state.Paired ∧ ∃ t, Step m offset ss row.guards (i + k) row.op row.state t ∧
      (row.op.isUnconditional = false →
        ∃ row', (rows m offset i rest)[k + 1]? = some row' ∧ t ≤ row'.state) := by
  induction h generalizing k with
  | nil => simp [rows] at hrow
  | @cons i s rest next hflows hnext hlinked ih =>
    have hlen := length_trace m offset s.guards i s.entry s.ops
    rw [rows] at hrow ⊢
    rcases Nat.lt_or_ge k s.ops.length with hk | hk
    · rw [List.getElem?_append_left (by rwa [hlen])] at hrow
      obtain ⟨hstate, t, hstep, hon⟩ := hflows.row (hpaired s List.mem_cons_self) hrow
      rw [guards_of_mem_trace (List.mem_of_getElem? hrow)]
      refine ⟨hstate, t, hstep, fun hu => ?_⟩
      rcases hon hu with ⟨row', hrow', hstate'⟩ | ⟨hlast, hpassed⟩
      · have hlt : k + 1 < s.ops.length := hlen ▸ (List.getElem?_eq_some_iff.1 hrow').1
        rw [List.getElem?_append_left (by rwa [hlen])]
        exact ⟨row', hrow', ge_of_eq hstate'⟩
      · -- the last instruction passes on to the next stretch
        obtain ⟨s', rest', rfl, hle⟩ := hnext t hpassed
        obtain ⟨row', hrow', hstate'⟩ := row_of_split m offset [] rest'
          (i + s.ops.length) (hne s' (List.mem_cons_of_mem s List.mem_cons_self))
        refine ⟨row', ?_, hle.trans (ge_of_eq hstate')⟩
        rw [List.getElem?_append_right (by rw [hlen, hlast]), hlen, hlast, Nat.sub_self]
        exact hrow'
    · rw [List.getElem?_append_right (by rwa [hlen]), hlen] at hrow
      obtain ⟨hstate, t, hstep, hon⟩ := ih (fun s' hs' => hpaired s' (List.mem_cons_of_mem s hs'))
        (fun s' hs' => hne s' (List.mem_cons_of_mem s hs')) hrow
      rw [show i + s.ops.length + (k - s.ops.length) = i + k by omega] at hstep
      refine ⟨hstate, t, hstep, fun hu => ?_⟩
      obtain ⟨row', hrow', hle⟩ := hon hu
      refine ⟨row', ?_, hle⟩
      rw [List.getElem?_append_right (by rw [hlen]; omega), hlen, ← hrow']
      congr 1
      omega

/-! ## How stretches are entered -/

/-- A stretch passes control on to the one behind it. -/
def PassesOn (s : Stretch) : Prop :=
  ∃ op, s.ops.getLast? = some op ∧ op.isUnconditional = false

/-- A stretch that hands on a state passes control on. -/
theorem Flows.passesOn {q : Stretch} (h : Flows m offset ss guards i s q.ops (some t))
    (hne : q.ops ≠ []) : q.PassesOn := by
  obtain ⟨op, hop⟩ := Option.isSome_iff_exists.1 (List.getLast?_isSome.2 hne)
  refine ⟨op, hop, ?_⟩
  generalize q.ops = ops at h hop
  generalize hnext : some t = next at h
  induction h with
  | done => simp at hop
  | @on _ _ _ op' ops' _ _ hu _ ih =>
    cases ops' with
    | nil =>
      cases hop
      exact hu
    | cons op₂ ops₂ =>
      rw [List.getLast?_cons_cons] at hop
      exact ih hop hnext
  | stop => cases hnext

/-- **A stretch may be entered** from those in front of it: from the last one, by a jump, or as
the handler of a range that began there. -/
inductive EnteredFrom (handlers : List (Handler Label)) (pre : List Stretch) (s : Stretch) : Prop
  | passed (q : Stretch) (hlast : pre.getLast? = some q) (hq : q.PassesOn)
  | jump (q : Stretch) (hq : q ∈ pre) (op : Op Label) (hop : op ∈ q.ops) (label : Label)
      (htarget : label ∈ op.targets) (hlabel : s.label = some label)
  | raised (h : Handler Label) (hh : h ∈ handlers) (hlabel : s.label = some h.handler)
      (q : Stretch) (hq : q ∈ pre) (hstart : q.label = some h.start)

/-- **Every stretch may be entered** from those in front of it. -/
inductive Entered (handlers : List (Handler Label)) : List Stretch → List Stretch → Prop
  | nil (pre : List Stretch) : Entered handlers pre []
  | cons {pre : List Stretch} {s : Stretch} {rest : List Stretch}
      (hs : EnteredFrom handlers pre s) (hrest : Entered handlers (pre ++ [s]) rest) :
      Entered handlers pre (s :: rest)

variable {handlers : List (Handler Label)}

/-- Stretches that may each be entered from the same ones in front. -/
theorem Entered.of_forall
    (h : ∀ s ∈ rest, ∀ pre', pre ⊆ pre' → EnteredFrom handlers pre' s) :
    Entered handlers pre rest := by
  induction rest generalizing pre with
  | nil => exact .nil pre
  | cons s rest ih =>
    refine .cons (h s List.mem_cons_self pre (List.Subset.refl pre)) (ih fun s' hs' pre' hpre => ?_)
    exact h s' (List.mem_cons_of_mem s hs') pre' fun q hq => hpre (List.mem_append_left _ hq)

/-- Stretches that do not pass control on follow one another in any order. -/
theorem Linked.of_ends
    (h : ∀ s ∈ rest, ∀ i, Flows m offset ss s.guards i s.entry s.ops none) :
    Linked m offset ss i rest := by
  induction rest generalizing i with
  | nil => exact .nil i
  | cons s rest ih =>
    exact .cons (h s List.mem_cons_self i) nofun (ih fun s' hs' => h s' (List.mem_cons_of_mem s hs'))

/-- The stretches of a handler's range: its instructions raise to the handler. -/
structure Guarded (ss : List Stretch) (h : Handler Label) (pre mid post : List Stretch) :
    Prop where
  stretches : ss = pre ++ (mid ++ post)
  start : ∃ s rest, mid = s :: rest ∧ s.label = some h.start
  stop : ∃ s rest, post = s :: rest ∧ s.label = some h.stop
  guards : ∀ s ∈ mid, h.handler ∈ s.guards

end Stretch

open Stretch

/-! ## Certificates -/

/-- **Stretches that certify a body**: they are its lines, each runs from what is known in front of
it, and each but the first may be entered from those in front of it. -/
structure Certificate (m : MethodHeader) (e : TypeState) (body : Body) (ss : List Stretch) :
    Prop where
  lines : body.lines = Block.linesOf (blocks ss)
  nodup : (Block.labelsOf (blocks ss)).Nodup
  nonempty : ∀ s ∈ ss, s.ops ≠ []
  first : ∃ s rest, ss = s :: rest ∧ e ≤ s.entry ∧ Entered body.handlers [s] rest
  paired : ∀ s ∈ ss, s.entry.Paired
  linked : ∀ offset, Linked m offset ss 0 ss
  handlers : ∀ h ∈ body.handlers, ∃ pre mid post, Guarded ss h pre mid post

end Code

end ProxyForge
