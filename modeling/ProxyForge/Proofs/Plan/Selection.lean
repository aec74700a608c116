import ProxyForge.Proofs.Outcome
import ProxyForge.Proxy.Plan
/-!
# The choice of members

`Plan.consider` looks at one candidate after the other and remembers keys and ids in tables. Here
it is measured against `Plan.firsts`, which has no tables: the first candidate of each key, in
order. `foldlM_consider` says that all candidates together give these, numbered (`Plan.numbered`),
or that two of them share an id, or that they are too many (`Plan.Refusal`).
-/

namespace ProxyForge

namespace Proxy

namespace Plan

variable {hash : String → Int32} {seen : List String} {c : Candidate}
  {cs done : List Candidate} {s : Choice} {key : String}

/-- The keys of candidates. -/
def keys (cs : List Candidate) : List String :=
  cs.map fun c => c.signature.key

@[simp] theorem keys_nil : keys [] = [] := rfl

@[simp] theorem keys_cons (c : Candidate) (cs : List Candidate) :
    keys (c :: cs) = c.signature.key :: keys cs := rfl

@[simp] theorem keys_append (cs ds : List Candidate) : keys (cs ++ ds) = keys cs ++ keys ds :=
  List.map_append

/-! ## First candidates -/

/-- **The first candidate of each key**, in order, without the keys that were seen before. -/
def firsts (seen : List String) : List Candidate → List Candidate
  | [] => []
  | c :: rest =>
    if c.signature.key ∈ seen then firsts seen rest
    else c :: firsts (c.signature.key :: seen) rest

theorem firsts_cons_of_mem (h : c.signature.key ∈ seen) :
    firsts seen (c :: cs) = firsts seen cs :=
  if_pos h

theorem firsts_cons_of_notMem (h : c.signature.key ∉ seen) :
    firsts seen (c :: cs) = c :: firsts (c.signature.key :: seen) cs :=
  if_neg h

/-- A first candidate is one of the candidates. -/
theorem firsts_sublist (seen : List String) (cs : List Candidate) :
    (firsts seen cs).Sublist cs := by
  induction cs generalizing seen with
  | nil => exact List.Sublist.refl _
  | cons c cs ih =>
    by_cases h : c.signature.key ∈ seen
    · rw [firsts_cons_of_mem h]
      exact (ih seen).cons c
    · rw [firsts_cons_of_notMem h]
      exact (ih _).cons_cons c

/-- **The keys of first candidates** are those of all candidates that were not seen before. -/
theorem mem_keys_firsts : key ∈ keys (firsts seen cs) ↔ key ∈ keys cs ∧ key ∉ seen := by
  induction cs generalizing seen with
  | nil => simp [firsts]
  | cons c cs ih =>
    by_cases h : c.signature.key ∈ seen
    · rw [firsts_cons_of_mem h, ih, keys_cons, List.mem_cons]
      constructor
      · rintro ⟨hkey, hseen⟩
        exact ⟨.inr hkey, hseen⟩
      · rintro ⟨rfl | hkey, hseen⟩
        · exact absurd h hseen
        · exact ⟨hkey, hseen⟩
    · rw [firsts_cons_of_notMem h, keys_cons, keys_cons, List.mem_cons, List.mem_cons, ih,
        List.mem_cons, not_or]
      constructor
      · rintro (rfl | ⟨hkey, -, hseen⟩)
        · exact ⟨.inl rfl, h⟩
        · exact ⟨.inr hkey, hseen⟩
      · rintro ⟨hkey, hseen⟩
        by_cases heq : key = c.signature.key
        · exact .inl heq
        · exact .inr ⟨hkey.resolve_left heq, heq, hseen⟩

/-- **First candidates have keys of their own.** -/
theorem nodup_keys_firsts (seen : List String) (cs : List Candidate) :
    (keys (firsts seen cs)).Nodup := by
  induction cs generalizing seen with
  | nil => exact List.nodup_nil
  | cons c cs ih =>
    by_cases h : c.signature.key ∈ seen
    · rw [firsts_cons_of_mem h]
      exact ih seen
    · rw [firsts_cons_of_notMem h, keys_cons, List.nodup_cons]
      refine ⟨fun hmem => ?_, ih _⟩
      exact (mem_keys_firsts.1 hmem).2 List.mem_cons_self

/-- The first candidates of two lists, one behind the other: of the second one those that the
first one does not have. -/
theorem firsts_append (seen : List String) (cs ds : List Candidate) :
    ∃ seen', firsts seen (cs ++ ds) = firsts seen cs ++ firsts seen' ds ∧
      ∀ key, key ∈ seen' ↔ key ∈ seen ∨ key ∈ keys cs := by
  induction cs generalizing seen with
  | nil => exact ⟨seen, rfl, fun key => by simp⟩
  | cons c cs ih =>
    by_cases h : c.signature.key ∈ seen
    · obtain ⟨seen', heq, hseen⟩ := ih seen
      refine ⟨seen', by rw [List.cons_append, firsts_cons_of_mem h, firsts_cons_of_mem h, heq],
        fun key => ?_⟩
      rw [hseen, keys_cons, List.mem_cons]
      constructor
      · rintro (hkey | hkey)
        · exact .inl hkey
        · exact .inr (.inr hkey)
      · rintro (hkey | rfl | hkey)
        · exact .inl hkey
        · exact .inl h
        · exact .inr hkey
    · obtain ⟨seen', heq, hseen⟩ := ih (c.signature.key :: seen)
      refine ⟨seen', by rw [List.cons_append, firsts_cons_of_notMem h, firsts_cons_of_notMem h,
        heq, List.cons_append], fun key => ?_⟩
      rw [hseen, keys_cons, List.mem_cons, List.mem_cons]
      exact or_assoc.trans or_left_comm

/-- **Where first candidates come from.** If candidates are made of some elements of a list, the
first ones are made at ascending places, each the first one at which its key occurs. -/
theorem firsts_filterMap {α : Type} (make : α → Option Candidate) (seen : List String)
    (xs : List α) :
    ∃ places : List Nat, places.Pairwise (· < ·) ∧
      List.Forall₂ (fun i c => ∃ x, xs[i]? = some x ∧ make x = some c ∧
        ∀ j < i, ∀ y d, xs[j]? = some y → make y = some d →
          d.signature.key ≠ c.signature.key) places (firsts seen (xs.filterMap make)) := by
  induction xs generalizing seen with
  | nil => exact ⟨[], .nil, .nil⟩
  | cons x xs ih =>
    -- places in the rest of the list lie one further on, and no key is that of the first element
    have hshift : ∀ {places : List Nat} {picked : List Candidate}
        (_ : ∀ c ∈ picked, ∀ d, make x = some d → d.signature.key ≠ c.signature.key),
        List.Forall₂ (fun i c => ∃ x, xs[i]? = some x ∧ make x = some c ∧
          ∀ j < i, ∀ y d, xs[j]? = some y → make y = some d →
            d.signature.key ≠ c.signature.key) places picked →
        List.Forall₂ (fun i c => ∃ x', (x :: xs)[i]? = some x' ∧ make x' = some c ∧
          ∀ j < i, ∀ y d, (x :: xs)[j]? = some y → make y = some d →
            d.signature.key ≠ c.signature.key) (places.map (· + 1)) picked := by
      intro places picked hother hplaces
      induction hplaces with
      | nil => exact .nil
      | @cons i c places picked hi _ ih' =>
        obtain ⟨y, hy, hmake, hfirst⟩ := hi
        refine .cons ⟨y, hy, hmake, ?_⟩ (ih' fun c' hc' => hother c' (List.mem_cons_of_mem c hc'))
        intro j hj z d hz hd
        cases j with
        | zero =>
          cases hz
          exact hother c List.mem_cons_self d hd
        | succ j => exact hfirst j (Nat.lt_of_succ_lt_succ hj) z d hz hd
    have hascend : ∀ {places : List Nat}, places.Pairwise (· < ·) →
        (places.map (· + 1)).Pairwise (· < ·) := fun h =>
      h.map _ fun _ _ hab => Nat.succ_lt_succ hab
    have hkey : ∀ {seen' : List String}, ∀ c ∈ firsts seen' (xs.filterMap make),
        c.signature.key ∉ seen' := fun {seen'} c hc =>
      (mem_keys_firsts.1 (List.mem_map_of_mem hc)).2
    rw [List.filterMap_cons]
    split
    · rename_i hnone
      obtain ⟨places, hpairwise, hplaces⟩ := ih seen
      refine ⟨places.map (· + 1), hascend hpairwise, hshift (fun c hc d hd => ?_) hplaces⟩
      rw [hnone] at hd
      cases hd
    · rename_i c hsome
      by_cases h : c.signature.key ∈ seen
      · obtain ⟨places, hpairwise, hplaces⟩ := ih seen
        rw [firsts_cons_of_mem h]
        refine ⟨places.map (· + 1), hascend hpairwise, hshift (fun c' hc' d hd heq => ?_) hplaces⟩
        cases hsome.symm.trans hd
        exact hkey c' hc' (heq ▸ h)
      · obtain ⟨places, hpairwise, hplaces⟩ := ih (c.signature.key :: seen)
        rw [firsts_cons_of_notMem h]
        refine ⟨0 :: places.map (· + 1), List.pairwise_cons.2 ⟨fun i hi => ?_, hascend hpairwise⟩,
          .cons ⟨x, rfl, hsome, fun j hj => absurd hj (Nat.not_lt_zero j)⟩
            (hshift (fun c' hc' d hd heq => ?_) hplaces)⟩
        · obtain ⟨j, -, rfl⟩ := List.mem_map.1 hi
          exact Nat.succ_pos j
        · cases hsome.symm.trans hd
          exact hkey c' hc' (heq ▸ List.mem_cons_self)

/-! ## The run -/

/-- **Candidates as members**: with the ids of their keys, and with their places as slots. -/
def numbered (hash : String → Int32) (cs : List Candidate) : List Planned :=
  cs.zipIdx.map fun (c, i) => ⟨c, hash c.signature.key, UInt16.ofNat i⟩

theorem numbered_append_singleton (hash : String → Int32) (cs : List Candidate) (c : Candidate) :
    numbered hash (cs ++ [c]) =
      numbered hash cs ++ [⟨c, hash c.signature.key, UInt16.ofNat cs.length⟩] := by
  unfold numbered
  rw [List.zipIdx_append, List.map_append, Nat.zero_add]
  rfl

@[simp] theorem length_numbered (hash : String → Int32) (cs : List Candidate) :
    (numbered hash cs).length = cs.length := by
  simp [numbered]

theorem map_toCandidate_numbered (hash : String → Int32) (cs : List Candidate) :
    (numbered hash cs).map Planned.toCandidate = cs := by
  unfold numbered
  rw [List.map_map]
  exact List.zipIdx_map_fst 0 cs

/-- **How far the choice has come**, said without tables. -/
structure Choice.Holds (hash : String → Int32) (seen : List String) (done : List Candidate)
    (s : Choice) : Prop where
  seen_iff : ∀ key, s.seen.contains key ↔ key ∈ seen
  /-- The id of a key leads back to the key, so no two keys share one. -/
  ids_iff : ∀ id first, s.ids[id]? = some first ↔ first ∈ keys done ∧ hash first = id
  members : s.members.toList = numbered hash done
  length_le : done.length ≤ limit

/-- **Why candidates are refused**, of which each is the first one with its key. -/
inductive Refusal (hash : String → Int32) (cs : List Candidate) : GenerationError → Prop
  /-- A candidate has the id of one in front of it. -/
  | collision {before after : List Candidate} {c : Candidate} {first : String}
      (hcs : cs = before ++ c :: after) (hfirst : first ∈ keys before)
      (hid : hash first = hash c.signature.key) :
      Refusal hash cs (.idCollision first c.signature.key (hash c.signature.key))
  /-- There is no slot for a candidate. -/
  | crowded {before after : List Candidate} {c : Candidate} (hcs : cs = before ++ c :: after)
      (hlen : before.length = limit) : Refusal hash cs (.tooManyMembers (limit + 1))

namespace Choice.Holds

theorem ids_injOn (h : s.Holds hash seen done) {k k' : String} (hk : k ∈ keys done)
    (hk' : k' ∈ keys done) (heq : hash k = hash k') : k = k' := by
  have hfirst := (h.ids_iff (hash k') k).2 ⟨hk, heq⟩
  rw [(h.ids_iff (hash k') k').2 ⟨hk', rfl⟩] at hfirst
  exact (Option.some.inj hfirst).symm

/-- A candidate with a key that was seen is passed over. -/
theorem consider_of_mem (h : s.Holds hash seen done) (hc : c.signature.key ∈ seen) :
    consider hash s c = .ok s := by
  unfold consider
  exact if_pos ((h.seen_iff _).2 hc)

/-- **A candidate with a new key** is planned, or it is refused. -/
theorem consider_of_notMem (h : s.Holds hash seen done) (hc : c.signature.key ∉ seen)
    (after : List Candidate) :
    (∃ s', consider hash s c = .ok s' ∧
      s'.Holds hash (c.signature.key :: seen) (done ++ [c])) ∨
    ∃ e, consider hash s c = .error e ∧ Refusal hash (done ++ c :: after) e := by
  have hnew : ¬ s.seen.contains c.signature.key := fun hmem => hc ((h.seen_iff _).1 hmem)
  have hsize : s.members.size = done.length := by
    rw [← Array.length_toList, h.members, length_numbered]
  unfold consider
  dsimp only
  rw [if_neg hnew]
  rcases hid : s.ids[hash c.signature.key]? with - | first
  · dsimp only
    by_cases hlimit : limit ≤ s.members.size
    · rw [if_pos hlimit]
      have hlen : done.length = limit := Nat.le_antisymm h.length_le (hsize ▸ hlimit)
      refine .inr ⟨_, rfl, ?_⟩
      rw [hsize, hlen]
      exact .crowded rfl hlen
    · rw [if_neg hlimit]
      refine .inl ⟨_, rfl, ?_, ?_, ?_, ?_⟩
      · intro key
        rw [Std.HashSet.contains_insert, Bool.or_eq_true, beq_iff_eq, h.seen_iff, List.mem_cons]
        exact or_congr_left eq_comm
      · intro id first
        rw [Std.HashMap.getElem?_insert, keys_append, List.mem_append]
        by_cases heq : hash c.signature.key = id
        · -- the id was free, so no planned key has it
          have hfree : ∀ k ∈ keys done, hash k ≠ id := by
            intro k hk hkid
            have := (h.ids_iff id k).2 ⟨hk, hkid⟩
            rw [← heq, hid] at this
            cases this
          rw [if_pos (beq_iff_eq.2 heq), Option.some.injEq]
          constructor
          · rintro rfl
            exact ⟨.inr List.mem_cons_self, heq⟩
          · rintro ⟨hmem | hmem, hfirst⟩
            · exact absurd hfirst (hfree first hmem)
            · exact (List.mem_singleton.1 hmem).symm
        · rw [if_neg (fun h' => heq (beq_iff_eq.1 h')), h.ids_iff]
          constructor
          · rintro ⟨hmem, hfirst⟩
            exact ⟨.inl hmem, hfirst⟩
          · rintro ⟨hmem | hmem, hfirst⟩
            · exact ⟨hmem, hfirst⟩
            · have hkey : first = c.signature.key := List.mem_singleton.1 hmem
              exact absurd (hkey ▸ hfirst) heq
      · rw [Array.toList_push, h.members, numbered_append_singleton, hsize]
      · rw [List.length_append, List.length_singleton]
        omega
  · obtain ⟨hfirst, hhash⟩ := (h.ids_iff _ _).1 hid
    exact .inr ⟨_, rfl, .collision rfl hfirst hhash⟩

end Choice.Holds

/-- **The run over all candidates** plans the first ones of each key, or refuses them. -/
theorem foldlM_consider (cs : List Candidate) (h : s.Holds hash seen done) :
    (∃ s' seen', cs.foldlM (consider hash) s = .ok s' ∧
      s'.Holds hash seen' (done ++ firsts seen cs)) ∨
    ∃ e, cs.foldlM (consider hash) s = .error e ∧ Refusal hash (done ++ firsts seen cs) e := by
  induction cs generalizing s seen done with
  | nil =>
    refine .inl ⟨s, seen, rfl, ?_⟩
    rwa [firsts, List.append_nil]
  | cons c cs ih =>
    rw [List.foldlM_cons]
    by_cases hc : c.signature.key ∈ seen
    · rw [firsts_cons_of_mem hc, h.consider_of_mem hc]
      exact ih h
    · rw [firsts_cons_of_notMem hc]
      rcases h.consider_of_notMem hc (firsts (c.signature.key :: seen) cs)
        with ⟨s₁, hs₁, hholds⟩ | ⟨e, he, hrefusal⟩
      · have hrun := ih hholds
        rw [List.append_assoc, List.singleton_append] at hrun
        rw [hs₁]
        exact hrun
      · rw [he]
        exact .inr ⟨e, rfl, hrefusal⟩

end Plan

end Proxy

end ProxyForge
