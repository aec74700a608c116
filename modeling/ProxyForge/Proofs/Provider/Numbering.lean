import Std.Data.String.ToNat
import ProxyForge.Proofs.Name
import ProxyForge.Proofs.Provider.Coverage
/-!
# Names from one counter

The providers of a process have a cache each and draw from one counter, one number for each class
that is to be created. A name is a stem with the number behind it, and nothing in between. So
different numbers alone do not make different names: `P1` and 0 are read as `P` and 10. Names are
different exactly if no two classes of one package meet in this way (`names_nodup_iff`). They never
do if no stem is another one with digits behind it (`names_nodup_of_apart`), as with a single
provider.

What a request does to the counter is said once (`Process.Advances`): nothing, or one number is
drawn and one class is asked of a factory. By induction, each number up to the counter was drawn
for one class (`Process.Numbered`).
-/

namespace ProxyForge

namespace Provider

open Proxy (Artifact Blueprint)

/-! ## Numbers behind stems -/

/-- **The longer stem is the shorter with digits behind it**, and its number is the rest of the
other number behind these digits. -/
def Meet (long short : String) (j k : Nat) : Prop :=
  ∃ digits, long = short ++ digits ∧ digits ++ toString j = toString k

theorem length_toDigits_le {j k : Nat} (h : j ≤ k) :
    (Nat.toDigits 10 j).length ≤ (Nat.toDigits 10 k).length := by
  refine (Nat.length_toDigits_le_iff (by decide) Nat.length_toDigits_pos).2 (h.trans_lt ?_)
  exact (Nat.length_toDigits_le_iff (by decide) Nat.length_toDigits_pos).1 le_rfl

/-- **A number is read off where its stem ends**: two texts are one only if the greater number
begins in the stem of the other. -/
theorem append_toString_eq_iff {s t : String} {j k : Nat} (h : j < k) :
    s ++ toString j = t ++ toString k ↔ Meet s t j k := by
  constructor
  · intro heq
    have hchars : s.toList ++ Nat.toDigits 10 j = t.toList ++ Nat.toDigits 10 k := by
      simpa using congrArg String.toList heq
    rcases List.append_eq_append_iff.1 hchars with ⟨more, -, hj⟩ | ⟨digits, hs, hk⟩
    · -- the smaller number is not the longer one
      have hlength := congrArg List.length hj
      have hle := length_toDigits_le h.le
      rw [List.length_append] at hlength
      obtain rfl : more = [] := List.eq_nil_of_length_eq_zero (by omega)
      exact absurd (Nat.repr_inj.1 (String.toList_inj.1 (by simpa using hj))) h.ne
    · refine ⟨String.ofList digits, ?_, ?_⟩ <;> rw [← String.toList_inj]
      · simpa using hs
      · simpa using hk.symm
  · rintro ⟨digits, rfl, hk⟩
    rw [← hk, String.append_assoc]

/-- Digits of numbers are digits. -/
theorem Meet.exists_digits {s t : String} {j k : Nat} (h : Meet s t j k) (hne : j ≠ k) :
    ∃ digits : String, digits ≠ "" ∧ digits.toList.all Char.isDigit ∧ s = t ++ digits := by
  obtain ⟨digits, hs, hk⟩ := h
  have hchars : digits.toList ++ Nat.toDigits 10 j = Nat.toDigits 10 k := by
    simpa using congrArg String.toList hk
  refine ⟨digits, ?_, List.all_eq_true.2 fun c hc => ?_, hs⟩
  · rintro rfl
    exact hne (Nat.repr_inj.1 (String.toList_inj.1 (by simpa using hchars)))
  · refine Nat.isDigit_of_mem_toDigits (b := 10) (n := k) (by decide) (by decide) ?_
    exact hchars ▸ List.mem_append_left _ hc

/-! ## Several providers -/

/-- A request to one of several providers, at a time when these loaders are alive. -/
structure Call (ι : Type) where
  provider : ι
  live : Loader → Bool
  loader : Loader
  demand : Demand

/-- What the factory of a provider is asked for. -/
structure Task (ι : Type) where
  provider : ι
  blueprint : Blueprint

/-- What requests change: a cache for each provider, and the counter of all of them. Every task is
noted. -/
structure Process (ι : Type) where
  caches : ι → Cache Demand Artifact
  next : UInt64
  tasks : List (Task ι)

/-- Nothing was requested. -/
def Process.start {ι : Type} : Process ι := ⟨fun _ => .empty, 0, []⟩

/-- The names that were passed to factories. -/
def Process.names {ι : Type} (p : Process ι) : List String :=
  p.tasks.map fun task => task.blueprint.name

section Requests

variable {ι : Type} {m : Type → Type} [Monad m]

/-- The factory of a provider, with its tasks noted. -/
def Factory.noting (factory : Factory m) (provider : ι) : Factory (StateT (List (Task ι)) m) :=
  fun loader blueprint => do
    modify fun tasks => tasks ++ [⟨provider, blueprint⟩]
    StateT.lift (factory loader blueprint)

/-- The answer of the provider, with its own cache and the counter. -/
def Call.answer [DecidableEq ι] (settings : ι → Settings) (factory : ι → Factory m)
    (call : Call ι) : StateT (Process ι) m (Except RequestError Artifact) := do
  let i := call.provider
  let session := request (settings i) ((factory i).noting i) call.live call.loader call.demand
  let p ← get
  let (((result, cache), next), tasks) ←
    StateT.lift (((session.run (p.caches i)).run p.next).run p.tasks)
  set (⟨Function.update p.caches i cache, next, tasks⟩ : Process ι)
  return result

/-! ## One request -/

variable [LawfulMonad m] {settings : ι → Settings} {factory : ι → Factory m}

/-- **What a request does to the counter**: nothing, or one number is drawn for one task. -/
def Process.Advances (settings : ι → Settings) (i : ι) (p q : Process ι) : Prop :=
  (q.next = p.next ∧ q.tasks = p.tasks) ∨
    ∃ location demand, Location.ofRequest demand.surface demand.params = .ok location ∧
      q.next = p.next + 1 ∧
      q.tasks = p.tasks ++ [⟨i, blueprintFor (settings i) location p.next demand⟩]

/-- A request finds an artifact or has one created, whatever else is in the cache. -/
theorem Cache.run_getOrCreate {κ α ε : Type} [DecidableEq κ] (live : Loader → Bool)
    (loader : Loader) (key : κ) (create : m (Except ε α)) (c : Cache κ α) :
    (getOrCreate live loader key (StateT.lift create)).run c =
      let c' := (c.dropGone live).reserve loader key
      match c'.find? loader key with
      | some a => pure (.ok a, c')
      | none => create >>= fun result => pure (result, c'.settle loader key result) := by
  cases hfind : ((c.dropGone live).reserve loader key).find? loader key <;>
    simp [getOrCreate, hfind]

/-- A creation draws a number and notes a task, before the factory does anything. -/
theorem run_creation (i : ι) (location : Location) (loader : Loader) (demand : Demand)
    (next : UInt64) (tasks : List (Task ι)) :
    ((creation (settings i) ((factory i).noting i) location loader demand).run next).run tasks =
      let blueprint := blueprintFor (settings i) location next demand
      factory i loader blueprint >>= fun result =>
        pure ((result, next + 1), tasks ++ [⟨i, blueprint⟩]) := by
  simp [creation, drawNumber, Factory.noting]

variable [DecidableEq ι]

/-- **One request.** -/
theorem Call.yields_answer (call : Call ι) (p : Process ι) :
    Yields (fun r => p.Advances settings call.provider r.2)
      ((call.answer settings factory).run p) := by
  simp only [answer, StateT.run_bind, StateT.run_get, pure_bind, StateT.run_lift, bind_assoc,
    StateT.run_set, StateT.run_pure]
  cases hlocation : Location.ofRequest call.demand.surface call.demand.params with
  | error e =>
    simp only [request, hlocation, StateT.run_pure, pure_bind]
    exact .pure (.inl ⟨rfl, rfl⟩)
  | ok location =>
    rw [request_eq_getOrCreate _ _ hlocation, Cache.run_getOrCreate]
    dsimp only
    split
    · simp only [StateT.run_pure, pure_bind]
      exact .pure (.inl ⟨rfl, rfl⟩)
    · simp only [StateT.run_bind, run_creation, StateT.run_pure, pure_bind, bind_assoc]
      -- whatever the factory does, it was asked
      exact .after _ fun result => .pure (.inr ⟨location, call.demand, hlocation, rfl, rfl⟩)

/-- Noting tasks changes nothing else: the answer, the cache and the counter are those of the
request by itself. -/
theorem Call.map_answer (call : Call ι) (p : Process ι) :
    (fun r => (r.1, r.2.caches, r.2.next)) <$> (call.answer settings factory).run p =
      (fun r => (r.1.1, Function.update p.caches call.provider r.1.2, r.2)) <$>
        ((request (settings call.provider) (factory call.provider) call.live call.loader
          call.demand).run (p.caches call.provider)).run p.next := by
  cases hlocation : Location.ofRequest call.demand.surface call.demand.params with
  | error e => simp [answer, request, hlocation]
  | ok location =>
    simp only [answer, StateT.run_bind, StateT.run_get, pure_bind, StateT.run_lift, bind_assoc,
      StateT.run_set, StateT.run_pure, request_eq_getOrCreate _ _ hlocation,
      Cache.run_getOrCreate]
    split
    · simp
    · simp [creation, drawNumber, Factory.noting]

/-! ## All requests -/

/-- **Every number up to the counter was drawn for a task**, in order. -/
structure Process.Numbered (settings : ι → Settings) (p : Process ι) : Prop where
  next_eq : p.next = .ofNat p.tasks.length
  drawn : ∀ k (h : k < p.tasks.length), ∃ location demand,
    Location.ofRequest demand.surface demand.params = .ok location ∧
      p.tasks[k].blueprint = blueprintFor (settings p.tasks[k].provider) location (.ofNat k) demand

namespace Process

omit [DecidableEq ι] in
theorem numbered_start : (start : Process ι).Numbered settings where
  next_eq := rfl
  drawn _ h := absurd h (Nat.not_lt_zero _)

omit [DecidableEq ι] in
theorem Numbered.advances {p q : Process ι} {i : ι} (h : p.Numbered settings)
    (hq : p.Advances settings i q) : q.Numbered settings := by
  obtain ⟨caches, next, tasks⟩ := q
  rcases hq with ⟨hnext, htasks⟩ | ⟨location, demand, hlocation, hnext, htasks⟩
  · dsimp only at hnext htasks
    subst hnext htasks
    exact ⟨h.next_eq, h.drawn⟩
  · dsimp only at hnext htasks
    subst hnext htasks
    refine ⟨?_, fun k hk => ?_⟩
    · simp [h.next_eq, UInt64.ofNat_add]
    · by_cases hold : k < p.tasks.length
      · simpa [List.getElem_append_left hold] using h.drawn k hold
      · obtain rfl : k = p.tasks.length := by
          simp at hk
          omega
        exact ⟨location, demand, hlocation, by simp [h.next_eq]⟩

end Process

/-- **All requests.** -/
theorem yields_numbered (calls : List (Call ι)) {p : Process ι} (hp : p.Numbered settings) :
    Yields (fun r => r.2.Numbered settings) ((calls.mapM (Call.answer settings factory)).run p) := by
  induction calls generalizing p with
  | nil => exact .pure hp
  | cons call rest ih =>
    simp only [List.mapM_cons, StateT.run_bind, StateT.run_pure]
    refine (call.yields_answer p).bind fun r hr => ?_
    exact (ih (hp.advances hr)).bind fun r' hr' => .pure hr'

end Requests

/-! ## Names -/

namespace Process

variable {ι : Type} {settings : ι → Settings} {p : Process ι}

/-- **Two names are one** if the packages are one and the stems meet. -/
theorem Numbered.name_eq_iff (h : p.Numbered settings) (hsize : p.tasks.length ≤ 2 ^ 64)
    (hstem : ∀ i, Name.isIdentifier (settings i).stem.toList) {j k : Nat} (hj : j < k)
    (hk : k < p.tasks.length) :
    p.tasks[j].blueprint.name = p.tasks[k].blueprint.name ↔
      Name.package p.tasks[j].blueprint.name = Name.package p.tasks[k].blueprint.name ∧
        Meet (settings p.tasks[j].provider).stem (settings p.tasks[k].provider).stem j k := by
  have hdot (i : ι) (number : UInt64) : '.' ∉ ((settings i).stem ++ toString number).toList :=
    Name.dot_notMem_of_isIdentifier (Name.isIdentifier_append_number (hstem i) number)
  -- below the size of the counter, a number is written as it is
  have hnumber {n : Nat} (hn : n < 2 ^ 64) : toString (UInt64.ofNat n) = toString n :=
    congrArg toString (UInt64.toNat_ofNat_of_lt' hn)
  obtain ⟨location, demand, -, hfirst⟩ := h.drawn j (hj.trans hk)
  obtain ⟨location', demand', -, hsecond⟩ := h.drawn k hk
  rw [hfirst, hsecond]
  simp only [blueprintFor, Settings.nameFor, Name.package_qualify _ (hdot _ _),
    Name.qualify_inj_iff (hdot _ _) (hdot _ _)]
  rw [hnumber ((hj.trans hk).trans_le hsize), hnumber (hk.trans_le hsize),
    append_toString_eq_iff hj]

/-- **No two tasks meet** whose classes go to one package. -/
def Apart (settings : ι → Settings) (p : Process ι) : Prop :=
  ∀ j k (hj : j < k) (hk : k < p.tasks.length),
    Name.package p.tasks[j].blueprint.name = Name.package p.tasks[k].blueprint.name →
      ¬ Meet (settings p.tasks[j].provider).stem (settings p.tasks[k].provider).stem j k

theorem Numbered.nodup_names_iff (h : p.Numbered settings) (hsize : p.tasks.length ≤ 2 ^ 64)
    (hstem : ∀ i, Name.isIdentifier (settings i).stem.toList) :
    p.names.Nodup ↔ p.Apart settings := by
  rw [names, List.Nodup, List.pairwise_map, List.pairwise_iff_getElem]
  constructor
  · intro hne j k hj hk hpackage hmeet
    exact hne j k (hj.trans hk) hk hj ((h.name_eq_iff hsize hstem hj hk).2 ⟨hpackage, hmeet⟩)
  · intro hmeet j k _ hk hj heq
    obtain ⟨hpackage, hboth⟩ := (h.name_eq_iff hsize hstem hj hk).1 heq
    exact hmeet j k hj hk hpackage hboth

end Process

section Requests

variable {ι : Type} [DecidableEq ι] {m : Type → Type} [Monad m] [LawfulMonad m]

/-- **Stems that are not one another with digits behind** never give a name twice, and neither does
one stem alone. -/
theorem names_nodup_of_apart (settings : ι → Settings) (factory : ι → Factory m)
    (hstem : ∀ i, Name.isIdentifier (settings i).stem.toList)
    (hapart : ∀ i i' (digits : String), digits ≠ "" → digits.toList.all Char.isDigit →
      (settings i).stem ≠ (settings i').stem ++ digits) (calls : List (Call ι)) :
    Yields (fun r => r.2.tasks.length ≤ 2 ^ 64 → r.2.names.Nodup)
      ((calls.mapM (Call.answer settings factory)).run .start) := by
  refine (yields_numbered calls Process.numbered_start).imp fun r hr hsize => ?_
  refine (hr.nodup_names_iff hsize hstem).2 fun j k hj hk _ hmeet => ?_
  obtain ⟨digits, hne, hdigits, heq⟩ := hmeet.exists_digits hj.ne
  exact hapart _ _ digits hne hdigits heq

/-- **Names repeat only where stems meet.** Any number of providers, with identifiers as stems,
answer any requests, in any order: successes, failures and what is in a cache. Then the names that
were passed to factories are pairwise different exactly if there are no two, with numbers `j < k`
and of one package, such that the stem of the first is the stem of the second with digits behind it
and `k` is written as these digits and `j`. -/
theorem names_nodup_iff (settings : ι → Settings) (factory : ι → Factory m)
    (hstem : ∀ i, Name.isIdentifier (settings i).stem.toList) (calls : List (Call ι)) :
    Yields (fun r => r.2.tasks.length ≤ 2 ^ 64 → (r.2.names.Nodup ↔ r.2.Apart settings))
      ((calls.mapM (Call.answer settings factory)).run .start) :=
  (yields_numbered calls Process.numbered_start).imp fun _ hr hsize => hr.nodup_names_iff hsize hstem

namespace Colliding

/-- Two providers with stems of which one is the other with a digit behind it. -/
def settings (long : Bool) : Settings :=
  { Settings.standard with stem := if long then "P1" else "P" }

/-- Neither creates anything. -/
def factory (_ : Bool) : Factory Id := fun _ blueprint =>
  .error (.load blueprint.name (.linkage "refused"))

/-- An interface without methods. -/
def demand : Demand := ⟨⟨[.ofInterface "demo.Greeter"]⟩, []⟩

/-- A request to one of them. -/
def ask (i : Bool) : Call Bool := ⟨i, fun _ => true, ⟨0, 0⟩, demand⟩

/-- One request to the longer stem, then ten to the shorter. -/
def calls : List (Call Bool) := ask true :: List.replicate 10 (ask false)

theorem ofRequest_demand : Location.ofRequest demand.surface demand.params =
    .ok ⟨none, Access.isPublic ||| Access.isFinal⟩ := by
  simp [Location.ofRequest, Location.verifyContracts, Location.verifyBases,
    Location.firstRepeated, Location.confined, Location.agreed, Location.contractLimit, demand,
    Surface.names, Surface.bases, Contract.ofInterface, Contract.isInterface, Contract.isPublic,
    bind, Except.bind]

/-- What number `next` is drawn for. -/
def task (i : Bool) (next : UInt64) : Task Bool :=
  ⟨i, blueprintFor (settings i) ⟨none, Access.isPublic ||| Access.isFinal⟩ next demand⟩

/-- Each request is refused, and takes a number. -/
theorem run_ask (i : Bool) (next : UInt64) (tasks : List (Task Bool)) :
    ((ask i).answer settings factory).run ⟨fun _ => .empty, next, tasks⟩ =
      pure (.error (.load (task i next).blueprint.name (.linkage "refused")),
        ⟨fun _ => .empty, next + 1, tasks ++ [task i next]⟩) := by
  have hcaches : Function.update (fun _ => Cache.empty) i Cache.empty =
    (fun _ => Cache.empty : Bool → Cache Demand Artifact) := Function.update_eq_self ..
  have hfactory (loader : Loader) (blueprint : Blueprint) : factory i loader blueprint =
    pure (.error (.load blueprint.name (.linkage "refused"))) := rfl
  have hgone : Cache.dropGone (fun _ => true) Cache.empty =
    (Cache.empty : Cache Demand Artifact) := rfl
  simp only [Call.answer, ask, StateT.run_bind, StateT.run_get, pure_bind, StateT.run_lift,
    bind_assoc, StateT.run_set, StateT.run_pure, request_eq_getOrCreate _ _ ofRequest_demand,
    Cache.run_getOrCreate_of_none Cache.settled_empty rfl, run_creation, hfactory, Cache.record,
    hgone, hcaches, task]

theorem tasks_calls : ((calls.mapM (Call.answer settings factory)).run .start).2.tasks =
    task true 0 :: [1, 2, 3, 4, 5, 6, 7, 8, 9, 10].map (task false) := by
  simp only [calls, List.replicate, Process.start, List.mapM_cons, List.mapM_nil, StateT.run_bind,
    StateT.run_pure, pure_bind, run_ask]
  rfl

/-- The first name and the last are one. -/
theorem names_nodup_iff_calls :
    (∀ i, Name.isIdentifier (settings i).stem.toList) ∧
    Yields (fun r => r.2.tasks.length ≤ 2 ^ 64 → (r.2.names.Nodup ↔ r.2.Apart settings))
      ((calls.mapM (Call.answer settings factory)).run .start) ∧
    ¬ ((calls.mapM (Call.answer settings factory)).run .start).2.names.Nodup := by
  have hstem : ∀ i, Name.isIdentifier (settings i).stem.toList := by decide
  have hname : (task true 0).blueprint.name = (task false 10).blueprint.name := by decide
  refine ⟨hstem, names_nodup_iff settings factory hstem calls, ?_⟩
  rw [Process.names, tasks_calls]
  simp [hname]

end Colliding

end Requests

end Provider

end ProxyForge
