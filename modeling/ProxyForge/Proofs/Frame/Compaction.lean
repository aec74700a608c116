import ProxyForge.Proofs.Descriptor
import ProxyForge.Proofs.Frame.Slots
import ProxyForge.Proofs.Inference.Recorded
/-!
# Compacted locals

`VerificationType.compactLocals` passes over the slot behind each wide type, whatever lies there.
Where wide types are paired, it is that of the value itself: no live local is lost
(`VerificationType.Paired.live_compactLocals`), and the compacted locals tell the slots but for the
unknown ones at the end (`VerificationType.Paired.compactLocals_inj_iff`). `wide_locals_paired`: all
that the inference of frames compacts is so paired.
-/

namespace ProxyForge

namespace VerificationType

variable {types types' : List VerificationType} {t : VerificationType}

/-- **Each wide type keeps its two slots**: the second one is unknown, and it is there. -/
def Paired (types : List VerificationType) : Prop :=
  ∀ i t, types[i]? = some t → t.isWide → types[i + 1]? = some top

/-- The locals of which something is known, in their order. -/
def live (types : List VerificationType) : List VerificationType :=
  types.filter (· ≠ top)

/-! ## Slots of a frame -/

/-- The slots that one entry of a frame stands for. -/
def expand (t : VerificationType) : List VerificationType :=
  if t.isWide then [t, top] else [t]

/-- **The slots that the entries of a frame stand for.** -/
def spread (entries : List VerificationType) : List VerificationType :=
  entries.flatMap expand

theorem spread_cons (t : VerificationType) (entries : List VerificationType) :
    spread (t :: entries) = t.expand ++ spread entries :=
  rfl

theorem spread_append (entries entries' : List VerificationType) :
    spread (entries ++ entries') = spread entries ++ spread entries' :=
  List.flatMap_append

theorem spread_replicate_top (n : Nat) : spread (List.replicate n top) = List.replicate n top := by
  induction n with
  | zero => rfl
  | succ n ih => exact congrArg (top :: ·) ih

@[simp] theorem live_append (types types' : List VerificationType) :
    live (types ++ types') = live types ++ live types' :=
  List.filter_append ..

@[simp] theorem live_replicate_top (n : Nat) : live (List.replicate n top) = [] := by
  simp [live]

/-- The second slot of a wide value is not live. -/
theorem live_expand (t : VerificationType) : live t.expand = live [t] := by
  cases t <;> rfl

theorem live_spread (entries : List VerificationType) : live (spread entries) = live entries := by
  induction entries with
  | nil => rfl
  | cons t entries ih =>
    rw [spread_cons, live_append, ih, live_expand, ← live_append, List.singleton_append]

/-! ## Entries -/

theorem entries_of_wide (h : t.isWide) (second : VerificationType)
    (rest : List VerificationType) : entries (t :: second :: rest) = t :: entries rest := by
  rw [entries, if_pos h]

theorem entries_of_narrow (h : ¬ t.isWide) (rest : List VerificationType) :
    entries (t :: rest) = t :: entries rest := by
  rw [entries.eq_def]
  exact if_neg h

/-- An unknown local has an entry of its own. -/
theorem entries_replicate_top (n : Nat) :
    entries (List.replicate n top) = List.replicate n top := by
  induction n with
  | zero => rfl
  | succ n ih =>
    rw [List.replicate_succ, entries_of_narrow (t := top) Bool.false_ne_true, ih]

/-! ## Unknown locals at the end -/

theorem dropTops_append_tops (types : List VerificationType) (n : Nat) :
    dropTops (types ++ List.replicate n top) = dropTops types := by
  unfold dropTops
  rw [List.reverse_append, List.reverse_replicate,
    List.dropWhile_append_of_pos fun t ht => by simp [List.eq_of_mem_replicate ht]]

namespace Paired

/-! ## Entries of paired slots -/

/-- Behind a wide type and its second slot, and behind any other type, the slots are paired by
themselves. -/
theorem drop (h : Paired types) (n : Nat) : Paired (types.drop n) := by
  intro i t ht hwide
  rw [List.getElem?_drop] at ht ⊢
  exact h (n + i) t ht hwide

/-- A wide type is not the last one. -/
theorem not_wide_singleton (h : Paired [t]) : ¬ t.isWide := fun hwide => by
  have := h 0 t rfl hwide
  simp at this

theorem second_eq_top {second : VerificationType} (h : Paired (t :: second :: types))
    (hwide : t.isWide) : second = top := by
  have := h 0 t rfl hwide
  simpa using this

/-- **What is passed over** belongs to the wide value in front of it. -/
theorem spread_entries (h : Paired types) : spread (entries types) = types := by
  induction types using entries.induct with
  | case1 => rfl
  | case2 t hwide => exact absurd hwide h.not_wide_singleton
  | case3 t hwide second rest ih =>
    obtain rfl := h.second_eq_top hwide
    rw [entries_of_wide hwide, spread_cons, ih (h.drop 2), expand, if_pos hwide]
    rfl
  | case4 t rest hwide ih =>
    rw [entries_of_narrow hwide, spread_cons, ih (h.drop 1), expand, if_neg hwide]
    rfl

theorem entries_append_tops (h : Paired types) (n : Nat) :
    entries (types ++ List.replicate n top) = entries types ++ List.replicate n top := by
  induction types using entries.induct with
  | case1 => exact entries_replicate_top n
  | case2 t hwide => exact absurd hwide h.not_wide_singleton
  | case3 t hwide second rest ih =>
    rw [List.cons_append, List.cons_append, entries_of_wide hwide, entries_of_wide hwide,
      ih (h.drop 2), List.cons_append]
  | case4 t rest hwide ih =>
    rw [List.cons_append, entries_of_narrow hwide, entries_of_narrow hwide, ih (h.drop 1),
      List.cons_append]

/-! ## Compacted locals of paired slots -/

/-- **Compacting loses no more than unknown locals at the end.** -/
theorem spread_compactLocals (h : Paired types) :
    ∃ n, types = spread (compactLocals types) ++ List.replicate n top := by
  obtain ⟨n, hn⟩ := dropTops_append (entries types)
  refine ⟨n, ?_⟩
  rw [compactLocals, ← spread_replicate_top, ← spread_append, ← hn, h.spread_entries]

/-- **Compacting swallows no live local**, and it adds none. -/
theorem live_compactLocals (h : Paired types) : live (compactLocals types) = live types := by
  obtain ⟨n, hn⟩ := h.spread_compactLocals
  calc live (compactLocals types)
      = live (spread (compactLocals types) ++ List.replicate n top) := by
        rw [live_append, live_spread, live_replicate_top, List.append_nil]
    _ = live types := by rw [← hn]

theorem compactLocals_append_tops (h : Paired types) (n : Nat) :
    compactLocals (types ++ List.replicate n top) = compactLocals types := by
  rw [compactLocals, h.entries_append_tops, dropTops_append_tops, compactLocals]

/-- **Compacted locals tell the slots**, but for the unknown ones at the end. -/
theorem compactLocals_inj_iff (h : Paired types) (h' : Paired types') :
    compactLocals types = compactLocals types' ↔
      ∃ k n, types ++ List.replicate k top = types' ++ List.replicate n top := by
  constructor
  · intro heq
    obtain ⟨n, hn⟩ := h.spread_compactLocals
    obtain ⟨k, hk⟩ := h'.spread_compactLocals
    refine ⟨k, n, ?_⟩
    rw [hn, hk, heq, List.append_assoc, List.append_assoc, List.replicate_append_replicate,
      List.replicate_append_replicate, Nat.add_comm]
  · rintro ⟨k, n, heq⟩
    rw [← h.compactLocals_append_tops k, heq, h'.compactLocals_append_tops]

end Paired

end VerificationType

namespace Code

open Outcome

variable {m : MethodHeader} {body : Body} {p : Program} {e t : TypeState} {b b' : PoolBuilder}

/-! ## Locals that are written -/

/-- A type in a frame is wide or unknown if the slot is. -/
theorem SlotType.kind_of_verification {t : SlotType} {v : VerificationType}
    (h : t.verification b = .ok v b') :
    b.Grows b' ∧ v.isWide = t.isWide ∧ (t = .top → v = .top) := by
  cases t with
  | object name =>
    obtain ⟨constant, b₁, hclass, hresult⟩ := bind_run_ok.1 h
    cases hresult
    exact ⟨(Interner.classRef_ok hclass).1, rfl, nofun⟩
  | top =>
    cases h
    exact ⟨.refl b, rfl, fun _ => rfl⟩
  | _ =>
    cases h
    exact ⟨.refl b, rfl, nofun⟩

/-- **Paired locals are written as paired types.** -/
theorem TypeState.Paired.written (ht : t.Paired) {types : List VerificationType}
    (h : t.locals.mapM SlotType.verification b = .ok types b') : VerificationType.Paired types := by
  obtain ⟨-, hall⟩ := Interner.mapM_ok
    (R := fun _ (t : SlotType) (v : VerificationType) =>
      v.isWide = t.isWide ∧ (t = .top → v = .top))
    (fun _ h => h) (fun _ hv => SlotType.kind_of_verification hv) h
  intro i v hv hwide
  obtain ⟨x, hx, hkind, -⟩ := getElem?_of_forall₂ hall hv
  have hslot : isWideAt t.locals i = v.isWide := by
    rw [isWideAt, hx, hkind]
  have hsecond := ht.locals i (hslot.trans hwide)
  obtain ⟨w, hw, -, htop⟩ := getElem?_of_forall₂ hall.flip hsecond
  rw [hw, htop rfl]

/-! ## The whole inference -/

/-- **Wide local variables keep their two slots** in the search for frames of a method that starts
with the state `e`, and nothing on a stack is unknown. -/
structure KeepsPairs (c : Context) (e : TypeState) : Prop where
  /-- The method starts so. -/
  entry : e.Paired
  /-- After any number of rounds, all that is recorded is so. -/
  recorded : ∀ (rounds : Nat) (s : Search),
    (Search.start c.ops.size e).run c rounds = .ok s → s.Recorded
  /-- What an instruction makes of a recorded state is so, and what it passes along any way out. -/
  passed : ∀ (rounds : Nat) (s : Search) (i : Nat) (op : Op Nat) (before after : TypeState),
    (Search.start c.ops.size e).run c rounds = .ok s →
    c.ops[i]? = some op → s.stateAt i = some before →
    before.step c.shape (c.offsetAt i) op = .ok after →
      after.Paired ∧ ∀ j t, c.Arrives i before after j t → t.Paired
  /-- Between the arrivals of a round, in whatever order they come, all that is recorded is so. -/
  amid : ∀ (rounds : Nat) (s s' : Search) (i : Nat) (rest : List Nat) (op : Op Nat)
    (before after : TypeState) (arrivals : List (Nat × TypeState)),
    (Search.start c.ops.size e).run c rounds = .ok s → s.pending = i :: rest →
    c.ops[i]? = some op → s.stateAt i = some before →
    before.step c.shape (c.offsetAt i) op = .ok after →
    (∀ a ∈ arrivals, c.Arrives i before after a.1 a.2) →
    arrivals.foldlM (fun s a => s.flow c a.1 a.2) (s.dequeue i rest) = .ok s' → s'.Recorded
  /-- Any instruction keeps it. -/
  step : ∀ (offset : Nat) (op : Op Nat) (s t : TypeState), s.Paired →
    s.step c.shape offset op = .ok t → t.Paired
  /-- Merging keeps it, also where one side has more local variables. -/
  merge : ∀ (offset : Nat) (s t u : TypeState) (changed : Bool), s.Paired → t.Paired →
    s.merge offset t = .ok (u, changed) → u.Paired
  /-- What is written to a frame is so. -/
  written : ∀ (rounds : Nat) (s : Search) (i : Nat) (t : TypeState) (b b' : PoolBuilder)
    (types : List VerificationType), (Search.start c.ops.size e).run c rounds = .ok s →
    s.stateAt i = some t → t.locals.mapM SlotType.verification b = .ok types b' →
    VerificationType.Paired types

/-- A search that starts with a paired state keeps pairs. -/
theorem TypeState.Paired.keepsPairs {c : Context} (hc : c.Valid) (he : e.Paired) :
    KeepsPairs c e := by
  have hrecorded : ∀ rounds s, (Search.start c.ops.size e).run c rounds = .ok s → s.Recorded :=
    fun _ _ hrun => (Search.recorded_start c.ops.size he).run hc hrun
  refine ⟨he, hrecorded, ?_, ?_, fun _ _ _ _ hs h => hs.step h,
    fun _ _ _ _ _ hs ht h => hs.merge ht h, ?_⟩
  · intro rounds s i op before after hrun _ hbefore hstep
    have hpaired := hrecorded rounds s hrun i before hbefore
    have hafter := hpaired.step hstep
    exact ⟨hafter, fun j t h => h.paired hc hpaired hafter⟩
  · intro rounds s s' i rest op before after arrivals hrun _ _ hbefore hstep harrive h
    have hs := hrecorded rounds s hrun
    have hpaired := hs i before hbefore
    have hs₀ : (s.dequeue i rest).Recorded := hs
    exact hs₀.flows hc hpaired (hpaired.step hstep) harrive h
  · exact fun rounds s i t b b' types hrun ht h => (hrecorded rounds s hrun i t ht).written h

/-- **Wide local variables stay paired**, so frames say all that is known of local variables. The
start of a method, every instruction and every merge keep the two slots of a wide value together,
and so does the whole search. What such locals are compacted to has all their live ones, and two of
them are compacted to the same list exactly if they are equal up to unknown locals at the end. -/
theorem wide_locals_paired (hp : body.resolve = .ok p) (he : TypeState.entry m = .ok e)
    (offsets : Array Nat) :
    KeepsPairs (p.context m offsets) e ∧
      (∀ types, VerificationType.Paired types →
        VerificationType.live (VerificationType.compactLocals types) =
          VerificationType.live types ∧
        ∃ n, types = VerificationType.spread (VerificationType.compactLocals types) ++
          List.replicate n .top) ∧
      ∀ types types', VerificationType.Paired types → VerificationType.Paired types' →
        (VerificationType.compactLocals types = VerificationType.compactLocals types' ↔
          ∃ k n, types ++ List.replicate k .top = types' ++ List.replicate n .top) :=
  ⟨(TypeState.paired_entry he).keepsPairs (Program.valid_of_resolve hp),
    fun _ h => ⟨h.live_compactLocals, h.spread_compactLocals⟩,
    fun _ _ h h' => h.compactLocals_inj_iff h'⟩

/-! ### A store across two wide values -/

namespace Straddle

/-- A static method with two wide parameters. -/
def header : MethodHeader := ⟨"Straddle", "straddle", "(JJ)V", true⟩

/-- It stores the first one into the second slot of the first one and the first slot of the
second one. -/
def code : Body := ⟨[.op (.load .long 0), .op (.store .long 1), .op (.ret none)], []⟩

def program : Program := ⟨#[.load .long 0, .store .long 1, .ret none], []⟩

def start : TypeState := ⟨[.long, .top, .long, .top], []⟩

theorem resolve : code.resolve = .ok program := by
  simp [Body.resolve, code, Body.ops, Body.opsOf, Body.positions, Body.positionsFrom, Op.resolve,
    program]
  rfl

theorem entry : TypeState.entry header = .ok start := by
  have hdescriptor : JvmType.ofMethodDescriptor header.descriptor =
      .ok ([.primitive .long, .primitive .long], .void) :=
    JvmType.ofMethodDescriptor_of_eq rfl (by decide) (by decide)
  rw [TypeState.entry, hdescriptor]
  rfl

/-- Behind the store, one wide value is left, in the slots of both. -/
theorem exists_search : ∃ s, (Search.start 3 start).run (program.context header #[0, 1, 2, 3]) 2 =
    .ok s ∧ s.stateAt 2 = some ⟨[.top, .long, .top, .top], []⟩ :=
  ⟨_, rfl, rfl⟩

end Straddle

/-- The store cuts both values in two and leaves no half of them. -/
theorem wide_locals_paired_straddle : (⟨[.top, .long, .top, .top], []⟩ : TypeState).Paired ∧
    VerificationType.live (VerificationType.compactLocals [.top, .long, .top, .top]) = [.long] := by
  obtain ⟨hkeeps, hcompact, -⟩ :=
    wide_locals_paired Straddle.resolve Straddle.entry #[0, 1, 2, 3]
  obtain ⟨s, hrun, hstate⟩ := Straddle.exists_search
  refine ⟨hkeeps.recorded 2 s hrun 2 _ hstate, ?_⟩
  have hwritten : [SlotType.top, .long, .top, .top].mapM SlotType.verification .empty =
      .ok [VerificationType.top, .long, .top, .top] .empty := rfl
  exact (hcompact _ (hkeeps.written 2 s 2 _ _ _ _ hrun hstate hwritten)).1

end Code

end ProxyForge
