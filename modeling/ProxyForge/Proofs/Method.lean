import ProxyForge.Proofs.Frame.Emission
import ProxyForge.Proofs.Layout.Labels
import ProxyForge.Proofs.Layout.Offsets
/-!
# Methods that are laid out

`LaidOut` says that a body became bytes. The inference of frames then finds a well-formed program:
jumps and handlers lead to instructions (`LaidOut.valid`), a handler catches what all its ranges
name (`Guard.catches_of_mem`), and offsets ascend (`LaidOut.ascends`). `VerifierInfo.ofProgram_ok`
opens a successful inference into its parts, and `VerifierInfo.mem_positions` says which
instructions get a frame.
-/

namespace ProxyForge

namespace Code

open Outcome

variable {m : MethodHeader} {body : Body} {p : Program} {l : Layout} {offsets : Array Nat}
  {b b' : PoolBuilder} {i : Nat}

/-! ## Handlers -/

namespace Guard

variable {handlers : List (Handler Nat)} {j : Nat} {name : String}

/-- **The class that a handler catches**: the one that all its ranges name, or the root of all that
can be thrown if they name several. -/
structure Catches (handlers : List (Handler Nat)) (j : Nat) (name : String) : Prop where
  exists_range : ∃ h ∈ handlers, h.handler = j
  named : (∀ h ∈ handlers, h.handler = j → caughtClass h = name) ∨
    name = throwableClass ∧ ∃ h ∈ handlers, ∃ h' ∈ handlers,
      h.handler = j ∧ h'.handler = j ∧ caughtClass h ≠ caughtClass h'

/-- A range more may name another class. -/
theorem Catches.append (hc : Catches handlers j name) (h : Handler Nat) :
    Catches (handlers ++ [h]) j
      (if h.handler = j ∧ name ≠ caughtClass h then throwableClass else name) := by
  obtain ⟨⟨h₀, hmem₀, hj₀⟩, hnamed⟩ := hc
  have hlast : h ∈ handlers ++ [h] := List.mem_append_right _ (List.mem_singleton_self h)
  refine ⟨⟨h₀, List.mem_append_left _ hmem₀, hj₀⟩, ?_⟩
  rcases hnamed with hall | ⟨hroot, h₁, hmem₁, h₂, hmem₂, hdiffer⟩
  · split
    · rename_i hother
      exact .inr ⟨rfl, h₀, List.mem_append_left _ hmem₀, h, hlast, hj₀, hother.1,
        fun heq => hother.2 ((hall h₀ hmem₀ hj₀).symm.trans heq)⟩
    · rename_i hsame
      left
      intro h' hmem hj
      rcases List.mem_append.1 hmem with hmem | hmem
      · exact hall h' hmem hj
      · obtain rfl := List.mem_singleton.1 hmem
        exact (not_not.1 fun hne => hsame ⟨hj, hne⟩).symm
  · exact .inr ⟨by split <;> first | rfl | exact hroot, h₁, List.mem_append_left _ hmem₁, h₂,
      List.mem_append_left _ hmem₂, hdiffer⟩

/-- What one range more does to the classes. -/
theorem getElem?_caughtClasses_append (handlers : List (Handler Nat)) (h : Handler Nat) (j : Nat) :
    (caughtClasses (handlers ++ [h]))[j]? =
      match (caughtClasses handlers)[j]? with
      | none => if h.handler = j then some (caughtClass h) else none
      | some name =>
        some (if h.handler = j ∧ name ≠ caughtClass h then throwableClass else name) := by
  unfold caughtClasses
  rw [List.foldl_append]
  generalize handlers.foldl _ _ = classes
  rw [List.foldl_cons, List.foldl_nil]
  by_cases hj : h.handler = j
  · subst hj
    rcases hclass : classes[h.handler]? with - | name
    · simp
    · by_cases hname : name = caughtClass h
      · simp [hname, hclass]
      · simp [hname]
  · have hne : (h.handler == j) = false := beq_false_of_ne hj
    rcases classes[h.handler]? with - | name
    · dsimp only
      rw [Std.HashMap.getElem?_insert, hne]
      cases classes[j]? <;> simp [hj]
    · dsimp only
      split
      · cases classes[j]? <;> simp [hj]
      · rw [Std.HashMap.getElem?_insert, hne]
        cases classes[j]? <;> simp [hj]

/-- **The classes of handlers**: a handler has one exactly if it has a range. -/
theorem caughtClasses_spec (handlers : List (Handler Nat)) (j : Nat) :
    ((caughtClasses handlers)[j]? = none → ∀ h ∈ handlers, h.handler ≠ j) ∧
      ∀ name, (caughtClasses handlers)[j]? = some name → Catches handlers j name := by
  induction handlers using List.reverseRecOn with
  | nil => simp [caughtClasses]
  | append_singleton handlers h ih =>
    obtain ⟨hnone, hsome⟩ := ih
    rw [getElem?_caughtClasses_append]
    rcases hj : (caughtClasses handlers)[j]? with - | name
    · dsimp only
      have hno := hnone hj
      split
      · rename_i hhj
        refine ⟨nofun, fun name hname => ?_⟩
        cases hname
        refine ⟨⟨h, List.mem_append_right _ (List.mem_singleton_self h), hhj⟩, .inl ?_⟩
        intro h' hmem hj'
        rcases List.mem_append.1 hmem with hmem | hmem
        · exact absurd hj' (hno h' hmem)
        · rw [List.mem_singleton.1 hmem]
      · rename_i hhj
        refine ⟨fun _ h' hmem => ?_, nofun⟩
        rcases List.mem_append.1 hmem with hmem | hmem
        · exact hno h' hmem
        · rwa [List.mem_singleton.1 hmem]
    · refine ⟨nofun, fun name' hname' => ?_⟩
      cases hname'
      exact (hsome name hj).append h

/-- What the guard of a handler catches. -/
theorem catches_of_mem {g : Guard} (hg : g ∈ ofHandlers handlers) :
    ∃ h ∈ handlers, g.handler = h.handler ∧
      ∃ name, g.caught = .object name ∧ Catches handlers g.handler name := by
  obtain ⟨h, hh, rfl⟩ := List.mem_map.1 hg
  obtain ⟨hnone, hsome⟩ := caughtClasses_spec handlers h.handler
  rcases hclass : (caughtClasses handlers)[h.handler]? with - | name
  · exact absurd rfl (hnone hclass h hh)
  · refine ⟨h, hh, rfl, name, ?_, hsome name hclass⟩
    rw [Std.HashMap.getD_eq_getD_getElem?, hclass, Option.getD_some]

/-- The class that a guard catches is named by a handler, or it is the root. -/
theorem caught_of_mem {g : Guard} (hg : g ∈ ofHandlers handlers) :
    ∃ name, g.caught = .object name ∧
      (name = throwableClass ∨ ∃ h ∈ handlers, h.caught = some name) := by
  obtain ⟨-, -, -, name, hcaught, ⟨h, hh, hj⟩, hnamed⟩ := catches_of_mem hg
  refine ⟨name, hcaught, ?_⟩
  rcases hnamed with hall | ⟨hroot, -⟩
  · have hname := hall h hh hj
    unfold caughtClass at hname
    cases hsome : h.caught with
    | none =>
      rw [hsome] at hname
      exact .inl hname.symm
    | some other =>
      rw [hsome] at hname
      cases hname
      exact .inr ⟨h, hh, hsome⟩
  · exact .inl hroot

end Guard

/-! ## Programs -/

/-- Resolving labels does not touch local variables. -/
theorem Op.reach_resolve {L M ε : Type} {place : L → Except ε M} {op : Op L} {op' : Op M}
    (h : op.resolve place = .ok op') : op'.reach = op.reach :=
  Op.resolve_agrees (f := Op.reach) (fun op => by cases op <;> rfl) h

namespace Program

/-- What the search for frames reads. -/
def context (p : Program) (m : MethodHeader) (offsets : Array Nat) : Context :=
  ⟨m, p.ops, offsets, Guard.ofHandlers p.handlers⟩

/-- **Which instructions need a frame**: those that are the target of a jump or of a switch, those
behind an instruction that never passes control on, and those that handle exceptions. -/
def NeedsFrame (p : Program) (i : Nat) : Prop :=
  (∃ (k : Nat) (op : Op Nat), p.ops[k]? = some op ∧
    (i ∈ op.targets ∨ op.isUnconditional ∧ i = k + 1)) ∨ ∃ h ∈ p.handlers, i = h.handler

theorem map_handler_guards (p : Program) :
    (Guard.ofHandlers p.handlers).map (·.handler) = p.handlers.map (·.handler) := by
  unfold Guard.ofHandlers
  rw [List.map_map]
  rfl

/-- A body with instructions has a program with some. -/
theorem size_pos_of_resolve (h : body.resolve = .ok p) (hne : body.ops ≠ []) : 0 < p.ops.size := by
  rw [(Body.resolve_ops h).1]
  exact List.length_pos_of_ne_nil hne

/-- **Jumps and handlers lead to instructions.** -/
theorem valid_of_resolve (h : body.resolve = .ok p) : (p.context m offsets).Valid where
  target_lt _ _ hop _ hj := Body.target_lt_of_resolve h hop hj
  handler_lt g hg := by
    obtain ⟨r, hr, heq, -⟩ := Guard.catches_of_mem hg
    rw [heq]
    exact (Body.handler_of_resolve h hr).2
  caught_object g hg := by
    obtain ⟨_, -, -, name, hcaught, -⟩ := Guard.catches_of_mem hg
    exact ⟨name, hcaught⟩

end Program

/-- **A body that is laid out**: its labels are resolved, and the program became bytes. -/
structure LaidOut (m : MethodHeader) (body : Body) (p : Program) (l : Layout) : Prop where
  program : body.program m.name = .ok p
  layout : ∃ b b', Layout.ofProgram m.name p b = .ok l b'

namespace LaidOut

theorem resolve (h : LaidOut m body p l) : body.resolve = .ok p :=
  mapError_eq_ok.1 h.program

theorem valid (h : LaidOut m body p l) : (p.context m l.offsets).Valid :=
  Program.valid_of_resolve h.resolve

/-- **Offsets ascend.** -/
theorem ascends (h : LaidOut m body p l) : (p.context m l.offsets).Ascends := by
  obtain ⟨b, b', hlayout⟩ := h.layout
  obtain ⟨hmeasured, hlen⟩ := Layout.measured_of_ofProgram hlayout
  exact ⟨fun hij hj => hmeasured.lt_of_lt hij (hlen ▸ Nat.le_of_lt hj), hmeasured.le_limit⟩

/-- There are no more instructions than bytes. -/
theorem size_le (h : LaidOut m body p l) : p.ops.size ≤ 65535 := by
  obtain ⟨b, b', hlayout⟩ := h.layout
  obtain ⟨hmeasured, hlen⟩ := Layout.measured_of_ofProgram hlayout
  exact hlen ▸ hmeasured.length_le

/-- A bound on the local variables of the body is one on those of the program. -/
theorem reachesBelow (h : LaidOut m body p l) {bound : Nat}
    (hreach : ∀ op ∈ body.ops, op.reach ≤ bound) : (p.context m l.offsets).ReachesBelow bound := by
  intro i op hop
  obtain ⟨op₀, hop₀, hresolve⟩ := (Body.resolve_ops h.resolve).2 i op hop
  rw [Op.reach_resolve hresolve]
  exact hreach op₀ (List.mem_of_getElem? hop₀)

end LaidOut

namespace VerifierInfo

/-! ## Positions of frames -/

theorem size_markAll (marks : Array Bool) (positions : List Nat) :
    (markAll marks positions).size = marks.size := by
  unfold markAll
  induction positions generalizing marks with
  | nil => rfl
  | cons i positions ih =>
    rw [List.foldl_cons, ih]
    exact Array.size_setIfInBounds

theorem getD_markAll (marks : Array Bool) (positions : List Nat) (hi : i < marks.size) :
    (markAll marks positions).getD i false ↔ i ∈ positions ∨ marks.getD i false := by
  unfold markAll
  induction positions generalizing marks with
  | nil => simp
  | cons j positions ih =>
    rw [List.foldl_cons, ih _ (by rwa [Array.size_setIfInBounds]), List.mem_cons]
    have hset : (marks.setIfInBounds j true).getD i false ↔ i = j ∨ marks.getD i false := by
      simp only [Array.getD_eq_getD_getElem?, Array.getElem?_setIfInBounds]
      by_cases hij : j = i
      · subst hij
        simp [hi]
      · simp [hij, Ne.symm hij]
    rw [hset]
    exact or_left_comm.trans or_assoc.symm

theorem getD_markJumps (marks : Array Bool) (ops : List (Op Nat × Nat)) (hi : i < marks.size) :
    (ops.foldl (fun marks (op, position) =>
      markAll marks (if op.isUnconditional then (position + 1) :: op.targets else op.targets))
      marks).getD i false ↔
    (∃ op position, (op, position) ∈ ops ∧
      (i ∈ op.targets ∨ op.isUnconditional ∧ i = position + 1)) ∨ marks.getD i false := by
  induction ops generalizing marks with
  | nil => simp
  | cons head ops ih =>
    obtain ⟨op, position⟩ := head
    rw [List.foldl_cons, ih _ (by rwa [size_markAll]), getD_markAll _ _ hi]
    have hmem : i ∈ (if op.isUnconditional then (position + 1) :: op.targets else op.targets) ↔
        i ∈ op.targets ∨ op.isUnconditional ∧ i = position + 1 := by
      cases op.isUnconditional <;> simp [or_comm]
    rw [hmem]
    constructor
    · -- the marks of the first instruction come from it or were there before
      rintro (⟨op', position', hop, h⟩ | h | h)
      · exact .inl ⟨op', position', List.mem_cons_of_mem _ hop, h⟩
      · exact .inl ⟨op, position, List.mem_cons_self, h⟩
      · exact .inr h
    · rintro (⟨op', position', hop, h⟩ | h)
      · rcases List.mem_cons.1 hop with heq | hop
        · cases heq
          exact .inr (.inl h)
        · exact .inl ⟨op', position', hop, h⟩
      · exact .inr (.inr h)

/-- **The positions of frames** are the instructions that need one. -/
theorem mem_positions : i ∈ positions p.ops (Guard.ofHandlers p.handlers) ↔
    i < p.ops.size ∧ p.NeedsFrame i := by
  -- marking keeps a mark for each instruction
  have hsize : ∀ (marks : Array Bool) (ops : List (Op Nat × Nat)),
      (ops.foldl (fun marks (op, position) =>
        markAll marks (if op.isUnconditional then (position + 1) :: op.targets else op.targets))
        marks).size = marks.size := by
    intro marks ops
    induction ops generalizing marks with
    | nil => rfl
    | cons head ops ih => rw [List.foldl_cons, ih, size_markAll]
  have hops : ∀ (op : Op Nat) (k : Nat), (op, k) ∈ p.ops.toList.zipIdx ↔ p.ops[k]? = some op := by
    intro op k
    rw [List.mem_zipIdx_iff_getElem?, Array.getElem?_toList]
  unfold positions
  rw [List.mem_filter, List.mem_range, Program.map_handler_guards]
  refine and_congr_right fun hi => ?_
  have hi' : i < (Array.replicate p.ops.size false).size := by rwa [Array.size_replicate]
  rw [getD_markAll _ _ (by rwa [hsize]), getD_markJumps _ _ hi']
  have hfalse : (Array.replicate p.ops.size false).getD i false = false := by
    simp [Array.getD_eq_getD_getElem?, hi]
  simp only [hfalse, Bool.false_eq_true, or_false, Program.NeedsFrame, hops, List.mem_map]
  constructor
  · rintro (⟨h, hh, rfl⟩ | ⟨op, k, h⟩)
    · exact .inr ⟨h, hh, rfl⟩
    · exact .inl ⟨k, op, h⟩
  · rintro (⟨k, op, h⟩ | ⟨h, hh, rfl⟩)
    · exact .inr ⟨op, k, h⟩
    · exact .inl ⟨h, hh, rfl⟩

theorem positions_pairwise (ops : Array (Op Nat)) (guards : List Guard) :
    (positions ops guards).Pairwise (· < ·) :=
  List.Pairwise.filter _ List.pairwise_lt_range

/-! ## The whole inference -/

/-- The frames of what a search has found. -/
def framesOf (p : Program) (c : Context) (e : TypeState) (s : Search) : Interner VerifierInfo := do
  let before ← compact e.locals
  let frames ← framesFrom c s [] before none (positions p.ops (Guard.ofHandlers p.handlers))
  return ⟨s.maxStack, localLimit p.ops e, frames⟩

/-- **An inference** is a search, and frames for what it has found. -/
theorem ofProgram_eq {e : TypeState} {s : Search} (he : TypeState.entry m = .ok e)
    (hsize : 0 < p.ops.size) (hs : Search.infer (p.context m offsets) e = .ok s) :
    ofProgram m p offsets b = framesOf p (p.context m offsets) e s b := by
  have hempty : ¬ p.ops.isEmpty := by
    rw [Array.isEmpty_iff_size_eq_zero]
    exact Nat.ne_of_gt hsize
  have hentry : (TypeState.entry m).mapError (EmissionError.invalidCode m.name) = .ok e :=
    mapError_eq_ok.2 he
  have hsearch : (Search.infer ⟨m, p.ops, offsets, Guard.ofHandlers p.handlers⟩ e).mapError
      (EmissionError.invalidCode m.name) = .ok s := mapError_eq_ok.2 hs
  unfold ofProgram
  dsimp only
  rw [hentry, Interner.lift_bind, if_neg hempty, hsearch, Interner.lift_bind]
  rfl

/-- **An inference fails for a defect**, or it is a search, and frames for what it has found. -/
theorem ofProgram_cases (m : MethodHeader) (p : Program) (offsets : Array Nat) :
    (∃ d, ofProgram m p offsets = Interner.fail (.invalidCode m.name d)) ∨
      ∃ e s, TypeState.entry m = .ok e ∧ 0 < p.ops.size ∧
        Search.infer (p.context m offsets) e = .ok s ∧
        ofProgram m p offsets = framesOf p (p.context m offsets) e s := by
  have hfails : ∀ {α : Type} (d : CodeDefect) (f : α → Interner VerifierInfo),
      (Interner.lift ((Except.error d).mapError (EmissionError.invalidCode m.name)) >>= f) =
        Interner.fail (.invalidCode m.name d) := fun _ _ => rfl
  cases he : TypeState.entry m with
  | error d =>
    left
    refine ⟨d, ?_⟩
    unfold ofProgram
    rw [he]
    exact hfails d _
  | ok e =>
    rcases Nat.eq_zero_or_pos p.ops.size with hzero | hsize
    · left
      refine ⟨.emptyBody, ?_⟩
      have hempty : p.ops.isEmpty := Array.isEmpty_iff_size_eq_zero.2 hzero
      unfold ofProgram
      rw [he]
      change (if p.ops.isEmpty then _ else _ : Interner VerifierInfo) = _
      rw [if_pos hempty]
      exact hfails .emptyBody _
    · cases hs : Search.infer (p.context m offsets) e with
      | error d =>
        left
        refine ⟨d, ?_⟩
        have hempty : ¬ p.ops.isEmpty := fun hempty =>
          Nat.ne_of_gt hsize (Array.isEmpty_iff_size_eq_zero.1 hempty)
        have hsearch : Search.infer ⟨m, p.ops, offsets, Guard.ofHandlers p.handlers⟩ e =
          .error d := hs
        unfold ofProgram
        rw [he]
        change (if p.ops.isEmpty then _ else _ : Interner VerifierInfo) = _
        rw [if_neg hempty]
        dsimp only
        rw [hsearch]
        exact hfails d _
      | ok s => exact .inr ⟨e, s, rfl, hsize, hs, funext fun b => ofProgram_eq he hsize hs⟩

/-- **A successful inference**, opened. -/
theorem ofProgram_ok {info : VerifierInfo} (h : ofProgram m p offsets b = .ok info b') :
    ∃ e s, TypeState.entry m = .ok e ∧ 0 < p.ops.size ∧
      Search.infer (p.context m offsets) e = .ok s ∧
      framesOf p (p.context m offsets) e s b = .ok info b' := by
  rcases ofProgram_cases m p offsets with ⟨d, hd⟩ | ⟨e, s, he, hsize, hs, heq⟩
  · rw [hd] at h
    cases h
  · exact ⟨e, s, he, hsize, hs, heq ▸ h⟩

theorem onlyFull_framesOf (p : Program) (c : Context) (e : TypeState) (s : Search) :
    Interner.OnlyFull (framesOf p c e s) :=
  (onlyFull_compact _).bind fun _ => (onlyFull_framesFrom _ _ _ _ _ _).bind fun _ => .pure _

end VerifierInfo

/-! ## A method that never ends -/

namespace Spin

/-- A static method without parameters. -/
def header : MethodHeader := ⟨"Spin", "spin", "()V", true⟩

/-- It puts a null into a local variable and jumps to itself for ever. -/
def code : Body := ⟨[.op .null, .op (.store .reference 0), .mark 7, .op (.jump .always 7)], []⟩

def program : Program := ⟨#[.null, .store .reference 0, .jump .always 2], []⟩

def layout : Layout := ⟨[0x01, 0x4b, 0xa7, 0, 0], #[0, 1, 2, 5], [0, 0, 0]⟩

def info : VerifierInfo := ⟨1, 1, [.append 2 [.null]]⟩

def search : Search where
  states := #[some ⟨[], []⟩, some ⟨[], [.null]⟩, some ⟨[.null], []⟩]
  pending := []
  queued := #[false, false, false]
  maxStack := 1

theorem laidOut : LaidOut header code program layout where
  program := by
    simp [Body.program, Body.resolve, code, Body.ops, Body.opsOf, Body.positions,
      Body.positionsFrom, Op.resolve, Body.jumpTarget, Except.mapError, program]
    rfl
  layout := ⟨.empty, .empty, rfl⟩

theorem entry : TypeState.entry header = .ok ⟨[], []⟩ := by
  have hdescriptor : JvmType.ofMethodDescriptor "()V" = .ok ([], .void) := by
    simp [JvmType.ofMethodDescriptor, JvmType.takeParams, JvmType.ofDescriptorChars]
    rfl
  simp [TypeState.entry, header, hdescriptor, TypeState.receiver]

theorem infer : Search.infer (program.context header layout.offsets) ⟨[], []⟩ = .ok search := by
  have hrun : ∀ fuel, (Search.start 3 ⟨[], []⟩).run (program.context header layout.offsets)
      (fuel + 4) = .ok search := fun _ => rfl
  have hfuel : Search.fuelFor 3 0 = 786508 + 4 := rfl
  have hnone : search.states.findIdx? Option.isNone = none := by simp [search]
  refine bind_eq_ok.2 ⟨search, (congrArg (Search.run _ · _) hfuel).trans (hrun _), ?_⟩
  rw [hnone]
  rfl

theorem framed : VerifierInfo.ofProgram header program layout.offsets .empty = .ok info .empty := by
  rw [VerifierInfo.ofProgram_eq entry (by decide) infer]
  rfl

end Spin

end Code

end ProxyForge
