import Mathlib.Data.List.Nodup
import ProxyForge.Proofs.Plan.Selection
/-!
# Plans by reference

What the plan of a surface is, said without the order in which it is computed: which methods may
be planned (`Eligible`), which keys the base has sealed (`Sealed`), and for each key the listed
method that wins (`Planned.TakenFrom`). `Plan.Collected` says of a plan that it is this one, and
`ofSurface_collected` that every plan is; a surface without a plan has two kept keys of one id, or
too many of them.
-/

namespace ProxyForge

namespace Proxy

open Outcome

/-! ## What may be planned -/

/-- **A method that a generated class may define**: an interface's that is public, or the base's
that can be seen and overridden. -/
inductive Eligible (c : Contract) (m : Method) : Prop
  | implemented (hkind : c.kind = .interface) (hpublic : m.visibility = .publicAccess)
    (hstatic : m.isStatic = false)
  | overridden (hkind : c.kind = .baseClass)
    (hvisible : m.visibility = .publicAccess ∨ m.visibility = .protectedAccess)
    (hfinal : m.isFinal = false) (hstatic : m.isStatic = false)

/-- **A key that the base has sealed**: by a final method that instances inherit. -/
def Sealed (s : Surface) (key : String) : Prop :=
  ∃ c ∈ s.contracts, c.kind = .baseClass ∧ ∃ m ∈ c.methods, m.key = key ∧
    m.isFinal = true ∧ m.isStatic = false ∧ m.visibility ≠ .privateAccess

/-- The listed methods, contract by contract, each with the contract that lists it. -/
def listed (s : Surface) : List (Contract × Method) :=
  s.contracts.flatMap fun c => c.methods.map fun m => (c, m)

/-- Where the methods of a contract are said to come from. -/
def originOf (c : Contract) : Origin :=
  if c.isInterface then .interface else .base

/-- **The listed method that a member is taken from**: the first eligible one with its key. -/
structure Planned.TakenFrom (s : Surface) (i : Nat) (member : Planned) (c : Contract) (m : Method) :
    Prop where
  listed : (listed s)[i]? = some (c, m)
  eligible : Eligible c m
  first : ∀ j < i, ∀ c' m', (Proxy.listed s)[j]? = some (c', m') → Eligible c' m' →
    m'.key ≠ member.key
  signature : member.signature = m.signature
  declaring : member.declaring = m.declaredIn.getD c.name
  origin : member.origin = originOf c
  visibility : member.visibility = m.visibility
  exceptions : member.exceptions = m.exceptions

/-- A universal member may be planned unless the method that the base lists for it is final. -/
def UniversalOffered (s : Surface) (signature : Signature) : Prop :=
  ∀ c ∈ s.contracts, c.kind = .baseClass → ∀ m,
    c.methods.find? (fun m => m.key = signature.key) = some m → m.isFinal = false

/-- **A key that is planned**: that of a universal member or of an eligible method, and not
sealed. -/
def Kept (s : Surface) (key : String) : Prop :=
  ¬ Sealed s key ∧
    ((∃ signature ∈ Plan.universalSignatures, signature.key = key ∧ UniversalOffered s signature) ∨
      ∃ c m, (c, m) ∈ listed s ∧ Eligible c m ∧ m.key = key)

namespace Plan

variable {hash : String → Int32} {s : Surface} {base : Option Contract} {c : Contract}
  {m : Method} {key : String}

/-- The keys of universal members. -/
def universalKeys : List String :=
  universalSignatures.map Signature.key

/-- **The plan of a surface.** -/
structure Collected (hash : String → Int32) (s : Surface) (p : Plan) : Prop where
  base : p.base = s.base
  keys_nodup : (p.members.map Planned.key).Nodup
  ids_nodup : (p.members.map (·.id)).Nodup
  id_eq : ∀ m ∈ p.members, m.id = hash m.key
  slot_eq : ∀ (i : Nat) (m : Planned), p.members[i]? = some m → m.slot.toNat = i
  /-- Universal members come first, in their order. -/
  universal_first : ∃ front back, p.members = front ++ back ∧
    (∀ m ∈ front, m.origin = .universal) ∧ (∀ m ∈ back, m.origin ≠ .universal) ∧
    (front.map (·.signature)).Sublist universalSignatures
  /-- Which keys are planned, the universal ones included. -/
  planned_iff : ∀ key, (∃ m ∈ p.members, m.key = key) ↔ Kept s key
  /-- Of the other keys, those of eligible methods that are not sealed. -/
  planned_other_iff : ∀ key ∉ universalKeys, (∃ m ∈ p.members, m.key = key) ↔
    (∃ c m, (c, m) ∈ listed s ∧ Eligible c m ∧ m.key = key) ∧ ¬ Sealed s key
  /-- Members with other keys are taken from the surface, in its order. -/
  in_order : ∃ places : List Nat, places.Pairwise (· < ·) ∧
    List.Forall₂ (fun i member => ∃ c m, Planned.TakenFrom s i member c m) places
      (p.members.filter fun m => m.key ∉ universalKeys)

/-! ## Candidates -/

theorem eligible_of_isInterface (hc : c.isInterface = true) :
    Eligible c m ↔ isImplementable m = true := by
  have hkind : c.kind = .interface := of_decide_eq_true hc
  simp only [isImplementable, Bool.and_eq_true, Bool.not_eq_true', decide_eq_true_eq]
  constructor
  · rintro (⟨-, hpublic, hstatic⟩ | ⟨hbase, -, -, -⟩)
    · exact ⟨hstatic, hpublic⟩
    · rw [hkind] at hbase
      cases hbase
  · rintro ⟨hstatic, hpublic⟩
    exact .implemented hkind hpublic hstatic

theorem kind_of_not_isInterface (hc : c.isInterface = false) : c.kind = .baseClass := by
  have hne : c.kind ≠ .interface := of_decide_eq_false hc
  cases hkind : c.kind with
  | interface => exact absurd hkind hne
  | baseClass => rfl

theorem eligible_of_not_isInterface (hc : c.isInterface = false) :
    Eligible c m ↔ isOverridable m = true := by
  have hkind := kind_of_not_isInterface hc
  simp only [isOverridable, Bool.and_eq_true, Bool.not_eq_true', Bool.or_eq_true,
    decide_eq_true_eq]
  constructor
  · rintro (⟨hinterface, -, -⟩ | ⟨-, hvisible, hfinal, hstatic⟩)
    · rw [hkind] at hinterface
      cases hinterface
    · exact ⟨⟨hfinal, hstatic⟩, hvisible⟩
  · rintro ⟨⟨hfinal, hstatic⟩, hvisible⟩
    exact .overridden hkind hvisible hfinal hstatic

instance : Decidable (Eligible c m) :=
  if hc : c.isInterface = true then decidable_of_iff _ (eligible_of_isInterface hc).symm
  else decidable_of_iff _ (eligible_of_not_isInterface (eq_false_of_ne_true hc)).symm

/-- A listed method as a candidate, if it is eligible. -/
def offer (entry : Contract × Method) : Option Candidate :=
  if Eligible entry.1 entry.2 then some (candidate (originOf entry.1) entry.1.name entry.2)
  else none

theorem offer_eq_some {d : Candidate} : offer (c, m) = some d ↔
    Eligible c m ∧ d = candidate (originOf c) c.name m := by
  unfold offer
  split
  · rename_i h
    rw [Option.some.injEq]
    exact ⟨fun heq => ⟨h, heq.symm⟩, fun h' => h'.2.symm⟩
  · rename_i h
    exact ⟨nofun, fun h' => absurd h'.1 h⟩

theorem filterMap_offer (c : Contract) (ms : List Method) :
    (ms.map fun m => (c, m)).filterMap offer =
      (ms.filter fun m => Eligible c m).map (candidate (originOf c) c.name) := by
  induction ms with
  | nil => rfl
  | cons m ms ih =>
    rw [List.map_cons, List.filterMap_cons, ih, List.filter_cons]
    by_cases h : Eligible c m
    · rw [offer_eq_some.2 ⟨h, rfl⟩, if_pos (decide_eq_true h)]
      rfl
    · rw [offer, if_neg h, if_neg (by simpa using h)]

/-- **The candidates of the contracts** are the listed methods that are eligible. -/
theorem flatMap_ofContract (s : Surface) :
    s.contracts.flatMap ofContract = (listed s).filterMap offer := by
  unfold listed
  rw [List.filterMap_flatMap]
  refine List.flatMap_congr fun c _ => ?_
  rw [filterMap_offer]
  unfold ofContract originOf
  split
  · rename_i hc
    congr 1
    exact List.filter_congr fun m _ => by simp [eligible_of_isInterface hc]
  · rename_i hc
    congr 1
    exact List.filter_congr fun m _ => by
      simp [eligible_of_not_isInterface (eq_false_of_ne_true hc)]

/-- A universal member as a candidate keeps its signature. -/
theorem universal_eq_some {signature : Signature} {d : Candidate}
    (h : universal base signature = some d) : d.signature = signature ∧ d.origin = .universal := by
  unfold universal at h
  split at h
  · cases h
    exact ⟨rfl, rfl⟩
  · split at h
    · cases h
      exact ⟨rfl, rfl⟩
    · split at h
      · cases h
      · split at h <;> cases h <;> exact ⟨rfl, rfl⟩

/-- A universal member is no candidate exactly if the base lists it as final. -/
theorem universal_eq_none {signature : Signature} : universal base signature = none ↔
    ∃ c m, base = some c ∧ c.methods.find? (fun m => m.key = signature.key) = some m ∧
      m.isFinal = true := by
  unfold universal
  constructor
  · intro h
    split at h
    · cases h
    · rename_i c
      split at h
      · cases h
      · rename_i m hm
        split at h
        · exact ⟨c, m, rfl, hm, ‹_›⟩
        · split at h <;> cases h
  · rintro ⟨c, m, rfl, hm, hfinal⟩
    dsimp only
    rw [hm]
    exact if_pos hfinal

/-! ## The base -/

/-- **With at most one base**, the base is the contract that is no interface. -/
theorem baseOf_ok (h : s.bases.length ≤ 1) : baseOf s = .ok s.base ∧
    ∀ c, s.base = some c ↔ c ∈ s.contracts ∧ c.kind = .baseClass := by
  have hmem : ∀ c, c ∈ s.bases ↔ c ∈ s.contracts ∧ c.kind = .baseClass := by
    intro c
    rw [Surface.bases, List.mem_filter, Bool.not_eq_true']
    refine and_congr_right fun _ => ⟨kind_of_not_isInterface, fun hkind => ?_⟩
    exact decide_eq_false (by rw [hkind]; exact ContractKind.noConfusion)
  unfold baseOf Surface.base
  rcases hbases : s.bases with - | ⟨c, - | ⟨c', rest⟩⟩
  · refine ⟨rfl, fun c => ?_⟩
    rw [← hmem, hbases]
    simp
  · refine ⟨rfl, fun d => ?_⟩
    rw [← hmem, hbases]
    simp [eq_comm]
  · rw [hbases, List.length_cons, List.length_cons] at h
    omega

theorem mem_sealedKeys (h : s.bases.length ≤ 1) : key ∈ sealedKeys s.base ↔ Sealed s key := by
  have hbase := (baseOf_ok h).2
  have hmem : ∀ c : Contract, key ∈ (c.methods.filter isSealed).map Method.key ↔
      ∃ m ∈ c.methods, m.key = key ∧ m.isFinal = true ∧ m.isStatic = false ∧
        m.visibility ≠ .privateAccess := by
    intro c
    rw [List.mem_map]
    constructor
    · rintro ⟨m, hm, rfl⟩
      obtain ⟨hm, hsealed⟩ := List.mem_filter.1 hm
      simp only [isSealed, Bool.and_eq_true, Bool.not_eq_true', decide_eq_true_eq] at hsealed
      exact ⟨m, hm, rfl, hsealed.1.1, hsealed.1.2, hsealed.2⟩
    · rintro ⟨m, hm, rfl, hfinal, hstatic, hprivate⟩
      exact ⟨m, List.mem_filter.2 ⟨hm, by simp [isSealed, hfinal, hstatic, hprivate]⟩, rfl⟩
  unfold Sealed
  rcases hs : s.base with - | c
  · refine ⟨nofun, ?_⟩
    rintro ⟨c, hc, hkind, -⟩
    have := (hbase c).2 ⟨hc, hkind⟩
    rw [hs] at this
    cases this
  · obtain ⟨hc, hkind⟩ := (hbase c).1 hs
    constructor
    · intro hkey
      exact ⟨c, hc, hkind, (hmem c).1 hkey⟩
    · rintro ⟨c', hc', hkind', hm⟩
      have := (hbase c').2 ⟨hc', hkind'⟩
      rw [hs] at this
      cases this
      exact (hmem c).2 hm

/-! ## Which keys are planned -/

/-- The candidates for universal members. -/
def universals (base : Option Contract) : List Candidate :=
  universalSignatures.filterMap (universal base)

theorem mem_keys_universals (h : s.bases.length ≤ 1) : key ∈ keys (universals s.base) ↔
    ∃ signature ∈ universalSignatures, signature.key = key ∧ UniversalOffered s signature := by
  have hbase := (baseOf_ok h).2
  have hoffered : ∀ signature, UniversalOffered s signature ↔
      universal s.base signature ≠ none := by
    intro signature
    rw [Ne, universal_eq_none]
    constructor
    · rintro hall ⟨c, m, hc, hm, hfinal⟩
      obtain ⟨hmem, hkind⟩ := (hbase c).1 hc
      rw [hall c hmem hkind m hm] at hfinal
      cases hfinal
    · intro hno c hc hkind m hm
      by_contra hfinal
      exact hno ⟨c, m, (hbase c).2 ⟨hc, hkind⟩, hm, eq_true_of_ne_false hfinal⟩
  unfold keys universals
  rw [List.mem_map]
  constructor
  · rintro ⟨d, hd, rfl⟩
    obtain ⟨signature, hmem, huniversal⟩ := List.mem_filterMap.1 hd
    refine ⟨signature, hmem, by rw [(universal_eq_some huniversal).1], (hoffered _).2 ?_⟩
    rw [huniversal]
    exact Option.some_ne_none d
  · rintro ⟨signature, hmem, rfl, hoffer⟩
    obtain ⟨d, hd⟩ := Option.ne_none_iff_exists'.1 ((hoffered _).1 hoffer)
    exact ⟨d, List.mem_filterMap.2 ⟨signature, hmem, hd⟩, by rw [(universal_eq_some hd).1]⟩

theorem mem_keys_offers : key ∈ keys ((listed s).filterMap offer) ↔
    ∃ c m, (c, m) ∈ listed s ∧ Eligible c m ∧ m.key = key := by
  unfold keys
  rw [List.mem_map]
  constructor
  · rintro ⟨d, hd, rfl⟩
    obtain ⟨⟨c, m⟩, hmem, hoffer⟩ := List.mem_filterMap.1 hd
    obtain ⟨heligible, rfl⟩ := offer_eq_some.1 hoffer
    exact ⟨c, m, hmem, heligible, rfl⟩
  · rintro ⟨c, m, hmem, heligible, rfl⟩
    exact ⟨_, List.mem_filterMap.2 ⟨(c, m), hmem, offer_eq_some.2 ⟨heligible, rfl⟩⟩, rfl⟩

/-- All candidates: universal members, then listed methods. -/
theorem candidates_eq (s : Surface) :
    candidates s.base s = universals s.base ++ (listed s).filterMap offer := by
  unfold candidates universals
  rw [flatMap_ofContract]

/-- A candidate for a universal member. -/
theorem of_mem_universals {d : Candidate} (h : d ∈ universals base) :
    d.origin = .universal ∧ d.signature ∈ universalSignatures := by
  obtain ⟨signature, hmem, hsome⟩ := List.mem_filterMap.1 h
  obtain ⟨heq, horigin⟩ := universal_eq_some hsome
  exact ⟨horigin, heq ▸ hmem⟩

/-- **A candidate** is one for a universal member, or an eligible method that a contract lists. -/
theorem of_mem_candidates {d : Candidate} (h : d ∈ candidates s.base s) :
    d ∈ universals s.base ∨ ∃ c ∈ s.contracts, ∃ m ∈ c.methods, Eligible c m ∧
      d = candidate (originOf c) c.name m := by
  rw [candidates_eq] at h
  rcases List.mem_append.1 h with huniversal | hlisted
  · exact .inl huniversal
  · obtain ⟨⟨c, m⟩, hmem, hoffer⟩ := List.mem_filterMap.1 hlisted
    obtain ⟨heligible, heq⟩ := offer_eq_some.1 hoffer
    obtain ⟨c', hc', hm⟩ := List.mem_flatMap.1 hmem
    obtain ⟨m', hm', hpair⟩ := List.mem_map.1 hm
    cases hpair
    exact .inr ⟨c, hc', m, hm', heligible, heq⟩

/-- **The candidates that are planned.** -/
def picked (s : Surface) : List Candidate :=
  firsts (sealedKeys s.base) (candidates s.base s)

/-- **The keys of planned candidates** are those that are kept. -/
theorem mem_keys_picked (h : s.bases.length ≤ 1) : key ∈ keys (picked s) ↔ Kept s key := by
  rw [picked, mem_keys_firsts, candidates_eq, keys_append, List.mem_append, mem_keys_universals h,
    mem_keys_offers, mem_sealedKeys h]
  exact and_comm

/-- A key that is not universal is kept exactly if it is that of an eligible method and not
sealed. -/
theorem kept_other_iff (hkey : key ∉ universalKeys) : Kept s key ↔
    (∃ c m, (c, m) ∈ listed s ∧ Eligible c m ∧ m.key = key) ∧ ¬ Sealed s key := by
  unfold Kept
  constructor
  · rintro ⟨hsealed, ⟨signature, hmem, rfl, -⟩ | heligible⟩
    · exact absurd (List.mem_map_of_mem hmem) hkey
    · exact ⟨heligible, hsealed⟩
  · rintro ⟨heligible, hsealed⟩
    exact ⟨hsealed, .inr heligible⟩

/-! ## Where members come from -/

/-- The member that a candidate becomes is taken from the listed method that it was made of. -/
theorem takenFrom_of_offer {i : Nat} {entry : Contract × Method} {member : Planned}
    (hentry : (listed s)[i]? = some entry) (hoffer : offer entry = some member.toCandidate)
    (hfirst : ∀ j < i, ∀ y d, (listed s)[j]? = some y → offer y = some d →
      d.signature.key ≠ member.signature.key) :
    ∃ c m, Planned.TakenFrom s i member c m := by
  obtain ⟨c, m⟩ := entry
  obtain ⟨heligible, heq⟩ := offer_eq_some.1 hoffer
  refine ⟨c, m, hentry, heligible, fun j hj c' m' hlisted heligible' => ?_, ?_, ?_, ?_, ?_, ?_⟩
  · exact hfirst j hj (c', m') _ hlisted (offer_eq_some.2 ⟨heligible', rfl⟩)
  all_goals rw [heq]; rfl

/-- **The order of the plan**: universal members, then first eligible methods in the order of the
surface. -/
theorem picked_eq (s : Surface) : ∃ front back, picked s = front ++ back ∧
    front.Sublist (universals s.base) ∧ ∃ places : List Nat, places.Pairwise (· < ·) ∧
      List.Forall₂ (fun i d => ∃ x, (listed s)[i]? = some x ∧ offer x = some d ∧
        ∀ j < i, ∀ y d', (listed s)[j]? = some y → offer y = some d' →
          d'.signature.key ≠ d.signature.key) places back := by
  obtain ⟨seen, heq, -⟩ :=
    firsts_append (sealedKeys s.base) (universals s.base) ((listed s).filterMap offer)
  obtain ⟨places, hascend, hplaces⟩ := firsts_filterMap offer seen (listed s)
  exact ⟨_, _, by rw [picked, candidates_eq, heq], firsts_sublist _ _, places, hascend, hplaces⟩

/-- Places stay ascending when some of what stands there is left out. -/
theorem places_filter {α : Type} {R : Nat → α → Prop} {places : List Nat} {xs : List α}
    (p : α → Bool) (hascend : places.Pairwise (· < ·)) (h : List.Forall₂ R places xs) :
    ∃ places' : List Nat, places'.Sublist places ∧ places'.Pairwise (· < ·) ∧
      List.Forall₂ R places' (xs.filter p) := by
  induction h with
  | nil => exact ⟨[], .refl _, .nil, .nil⟩
  | @cons i x places xs hi _ ih =>
    obtain ⟨hlt, hrest⟩ := List.pairwise_cons.1 hascend
    obtain ⟨places', hsub, hascend', hplaces'⟩ := ih hrest
    by_cases hx : p x
    · rw [List.filter_cons_of_pos hx]
      exact ⟨i :: places', hsub.cons_cons i,
        List.pairwise_cons.2 ⟨fun j hj => hlt j (hsub.subset hj), hascend'⟩, .cons hi hplaces'⟩
    · rw [List.filter_cons_of_neg hx]
      exact ⟨places', hsub.cons i, hascend', hplaces'⟩

/-! ## The plan -/

/-- The choice at its start. -/
theorem holds_start (hash : String → Int32) (sealed : List String) :
    (⟨.ofList sealed, ∅, #[]⟩ : Choice).Holds hash sealed [] where
  seen_iff key := by simp
  ids_iff id first := by simp
  members := rfl
  length_le := Nat.zero_le _

/-- **Planning a surface** gives the planned candidates, numbered, or refuses them. -/
theorem ofSurface_eq (hash : String → Int32) (h : s.bases.length ≤ 1) :
    (ofSurface hash s = .ok ⟨numbered hash (picked s), s.base⟩ ∧ (picked s).length ≤ limit ∧
      ∀ k ∈ keys (picked s), ∀ k' ∈ keys (picked s), hash k = hash k' → k = k') ∨
    ∃ e, ofSurface hash s = .error e ∧ Refusal hash (picked s) e := by
  have hbase := (baseOf_ok h).1
  have hrun := foldlM_consider (candidates s.base s)
    (holds_start hash (sealedKeys s.base))
  rw [List.nil_append] at hrun
  rcases hrun with ⟨choice, seen, hchoice, hholds⟩ | ⟨e, he, hrefusal⟩
  · refine .inl ⟨?_, hholds.length_le, fun k hk k' hk' => hholds.ids_injOn hk hk'⟩
    rw [picked, ← hholds.members]
    exact bind_eq_ok.2 ⟨s.base, hbase, bind_eq_ok.2 ⟨choice, hchoice, rfl⟩⟩
  · refine .inr ⟨e, ?_, hrefusal⟩
    unfold ofSurface
    rw [hbase]
    change (do
      let choice ← (candidates s.base s).foldlM (consider hash) _
      return (⟨choice.members.toList, s.base⟩ : Plan)) = _
    rw [he]
    rfl

/-- **There is a plan** if the keys to plan have ids of their own and there are slots for them. -/
theorem ofSurface_eq_ok (hash : String → Int32) (h : s.bases.length ≤ 1)
    (hlen : (picked s).length ≤ limit)
    (hinj : ∀ k ∈ keys (picked s), ∀ k' ∈ keys (picked s), hash k = hash k' → k = k') :
    ofSurface hash s = .ok ⟨numbered hash (picked s), s.base⟩ := by
  rcases ofSurface_eq hash h with ⟨hok, -, -⟩ | ⟨e, -, hrefusal⟩
  · exact hok
  · exfalso
    have hnodup : (keys (picked s)).Nodup := nodup_keys_firsts _ _
    cases hrefusal with
    | @collision before after c first hcs hfirst hid =>
      rw [hcs, keys_append, keys_cons] at hnodup hinj
      have heq := hinj first (List.mem_append_left _ hfirst) c.signature.key
        (List.mem_append_right _ List.mem_cons_self) hid
      exact (List.nodup_append.1 hnodup).2.2 _ hfirst _ List.mem_cons_self heq
    | @crowded before after c hcs hcount =>
      rw [hcs, List.length_append, List.length_cons] at hlen
      omega

/-- There is a plan for keys that were found to have ids of their own. -/
theorem ofSurface_of_keys (hash : String → Int32) (h : s.bases.length ≤ 1) {ks : List String}
    (hkeys : keys (picked s) = ks) (hlen : ks.length ≤ limit)
    (hinj : ∀ k ∈ ks, ∀ k' ∈ ks, hash k = hash k' → k = k') :
    ofSurface hash s = .ok ⟨numbered hash (picked s), s.base⟩ := by
  subst hkeys
  rw [keys, List.length_map] at hlen
  exact ofSurface_eq_ok hash h hlen hinj

theorem map_key_numbered (hash : String → Int32) (cs : List Candidate) :
    (numbered hash cs).map Planned.key = keys cs := by
  have h := congrArg (List.map fun c => c.signature.key) (map_toCandidate_numbered hash cs)
  rwa [List.map_map] at h

theorem map_id_numbered (hash : String → Int32) (cs : List Candidate) :
    (numbered hash cs).map (·.id) = (keys cs).map hash := by
  rw [← map_key_numbered hash cs]
  unfold numbered
  rw [List.map_map, List.map_map, List.map_map]
  rfl

/-- What is numbered, from front and back. -/
theorem exists_of_numbered_append (hash : String → Int32) {cs front back : List Candidate}
    (h : cs = front ++ back) :
    ∃ front' back', numbered hash cs = front' ++ back' ∧ front'.map Planned.toCandidate = front ∧
      back'.map Planned.toCandidate = back := by
  have hmap := map_toCandidate_numbered hash cs
  rw [h] at hmap
  obtain ⟨front', back', heq, hfront, hback⟩ := List.map_eq_append_iff.1 hmap
  exact ⟨front', back', h ▸ heq, hfront, hback⟩

/-- **The planned candidates, numbered, are the plan of the surface.** -/
theorem collected_picked (h : s.bases.length ≤ 1) (hlen : (picked s).length ≤ limit)
    (hinj : ∀ k ∈ keys (picked s), ∀ k' ∈ keys (picked s), hash k = hash k' → k = k') :
    Collected hash s ⟨numbered hash (picked s), s.base⟩ := by
  have hkeys := nodup_keys_firsts (sealedKeys s.base) (candidates s.base s)
  have hmem : ∀ key, (∃ m ∈ numbered hash (picked s), m.key = key) ↔ key ∈ keys (picked s) := by
    intro key
    rw [← map_key_numbered hash, List.mem_map]
  obtain ⟨front, back, hpicked, hfront, places, hascend, hplaces⟩ := picked_eq s
  obtain ⟨front', back', hnumbered, hfront', hback'⟩ := exists_of_numbered_append hash hpicked
  have huniversal : ∀ m ∈ front', m.origin = .universal ∧ m.signature ∈ universalSignatures :=
    fun m hm => of_mem_universals (hfront.subset (hfront' ▸ List.mem_map_of_mem hm))
  have htaken : List.Forall₂ (fun i member => ∃ c m, Planned.TakenFrom s i member c m) places
      back' := by
    rw [← hback', List.forall₂_map_right_iff] at hplaces
    exact hplaces.imp fun i member hi => by
      obtain ⟨entry, hentry, hoffer, hfirst⟩ := hi
      exact takenFrom_of_offer hentry hoffer hfirst
  refine ⟨rfl, ?_, ?_, ?_, ?_, ?_, fun key => (hmem key).trans (mem_keys_picked h),
    fun key hkey => ((hmem key).trans (mem_keys_picked h)).trans (kept_other_iff hkey), ?_⟩
  · rw [map_key_numbered]
    exact hkeys
  · rw [map_id_numbered]
    exact List.Nodup.map_on hinj hkeys
  · intro m hm
    obtain ⟨⟨d, i⟩, -, rfl⟩ := List.mem_map.1 hm
    rfl
  · intro i m hm
    dsimp only [numbered] at hm
    rw [List.getElem?_map, List.getElem?_zipIdx] at hm
    obtain ⟨⟨d, j⟩, hd, rfl⟩ := Option.map_eq_some_iff.1 hm
    obtain ⟨d', hd', heq⟩ := Option.map_eq_some_iff.1 hd
    cases heq
    have hi : i < (picked s).length := (List.getElem?_eq_some_iff.1 hd').1
    dsimp only
    rw [Nat.zero_add, UInt16.toNat_ofNat']
    exact Nat.mod_eq_of_lt (Nat.lt_of_lt_of_le hi hlen)
  · refine ⟨front', back', hnumbered, fun m hm => (huniversal m hm).1, fun m hm => ?_, ?_⟩
    · obtain ⟨k, hk⟩ := List.mem_iff_getElem?.1 hm
      obtain ⟨i, -, c, method, htaken⟩ := getElem?_of_forall₂ htaken hk
      rw [htaken.origin, originOf]
      split <;> exact Origin.noConfusion
    · have hsub := hfront.map (·.signature)
      rw [← hfront', List.map_map] at hsub
      refine hsub.trans ?_
      -- each candidate for a universal member keeps the member's signature
      have hsame : (universals s.base).map (·.signature) =
          universalSignatures.filter fun t => (universal s.base t).isSome := by
        unfold universals
        generalize universalSignatures = signatures
        induction signatures with
        | nil => rfl
        | cons t rest ih =>
          rw [List.filterMap_cons, List.filter_cons]
          cases hd : universal s.base t with
          | none => exact ih
          | some d =>
            rw [List.map_cons, ih, (universal_eq_some hd).1]
            rfl
      rw [hsame]
      exact List.filter_sublist
  · have hnone : front'.filter (fun m => m.key ∉ universalKeys) = [] := by
      rw [List.filter_eq_nil_iff]
      intro m hm
      have hkey : m.key ∈ universalKeys :=
        List.mem_map_of_mem (f := Signature.key) (huniversal m hm).2
      simpa using hkey
    obtain ⟨places', -, hascend', hplaces'⟩ := places_filter
      (fun m : Planned => m.key ∉ universalKeys) hascend htaken
    refine ⟨places', hascend', ?_⟩
    dsimp only
    rw [hnumbered, List.filter_append, hnone, List.nil_append]
    exact hplaces'

/-- **The collector computes the plan of the surface.** With at most one base, a plan is the plan
of the surface. If there is none, two different keys that are kept have one id, which the error
names, or more keys are kept than there are slots. -/
theorem ofSurface_collected (hash : String → Int32) (s : Surface) (h : s.bases.length ≤ 1) :
    (∀ p, ofSurface hash s = .ok p → Collected hash s p) ∧
    ∀ e, ofSurface hash s = .error e →
      (∃ first second id, e = .idCollision first second id ∧ first ≠ second ∧ Kept s first ∧
        Kept s second ∧ hash first = id ∧ hash second = id) ∨
      ∃ kept : List String, e = .tooManyMembers kept.length ∧ limit < kept.length ∧ kept.Nodup ∧
        ∀ key ∈ kept, Kept s key := by
  have hnodup := nodup_keys_firsts (sealedKeys s.base) (candidates s.base s)
  rcases ofSurface_eq hash h with ⟨hok, hlen, hinj⟩ | ⟨e, he, hrefusal⟩
  · rw [hok]
    refine ⟨fun p hp => ?_, nofun⟩
    cases hp
    exact collected_picked h hlen hinj
  · rw [he]
    refine ⟨nofun, fun e' he' => ?_⟩
    cases he'
    cases hrefusal with
    | @collision before after c first hcs hfirst hid =>
      have hkeys : keys (picked s) = keys before ++ c.signature.key :: keys after := by
        rw [hcs, keys_append, keys_cons]
      refine .inl ⟨first, c.signature.key, hash c.signature.key, rfl, ?_, ?_, ?_, hid, rfl⟩
      · -- the second key stands behind the first one, and keys differ
        rintro rfl
        change (keys (picked s)).Nodup at hnodup
        rw [hkeys] at hnodup
        exact (List.nodup_append.1 hnodup).2.2 _ hfirst _ List.mem_cons_self rfl
      · exact (mem_keys_picked h).1 (hkeys ▸ List.mem_append_left _ hfirst)
      · exact (mem_keys_picked h).1 (hkeys ▸ List.mem_append_right _ List.mem_cons_self)
    | @crowded before after c hcs hlen =>
      have hsub : (keys (before ++ [c])).Sublist (keys (picked s)) := by
        rw [hcs]
        refine List.Sublist.map _ ((List.Sublist.refl before).append ?_)
        exact List.singleton_sublist.2 List.mem_cons_self
      have hcount : (keys (before ++ [c])).length = limit + 1 := by
        simp [keys, hlen]
      refine .inr ⟨keys (before ++ [c]), by rw [hcount], by rw [hcount]; exact Nat.lt_succ_self _,
        hsub.nodup hnodup, fun key hkey => (mem_keys_picked h).1 (hsub.subset hkey)⟩

/-- A class that seals `run()V`, and an interface that asks for it and for `go(I)V`. -/
def sealedRun : Surface where
  contracts :=
    [(Contract.ofClass "Base").addMethod
        { Method.ofSignature ⟨"run", [], .void⟩ with isFinal := true },
      ((Contract.ofInterface "Api").addMethod (.ofSignature ⟨"run", [], .void⟩)).addMethod
        (.ofSignature ⟨"go", [.primitive .int], .void⟩)]

/-- Its plan has the second member only, behind the universal ones. -/
theorem ofSurface_collected_sealedRun :
    sealedRun.bases.length ≤ 1 ∧
      ∃ p, ofSurface (fun key => Int32.ofNat key.length) sealedRun = .ok p ∧
        Collected (fun key => Int32.ofNat key.length) sealedRun p ∧
        p.members.map Planned.key =
          ["equals(Ljava/lang/Object;)Z", "hashCode()I", "toString()Ljava/lang/String;", "go(I)V"] := by
  have hbases : sealedRun.bases.length ≤ 1 := by decide
  have hkeys : keys (picked sealedRun) =
      ["equals(Ljava/lang/Object;)Z", "hashCode()I", "toString()Ljava/lang/String;", "go(I)V"] := by
    decide +kernel
  have hlen : (picked sealedRun).length ≤ limit := by
    have hlength := congrArg List.length hkeys
    rw [keys, List.length_map] at hlength
    rw [hlength]
    decide
  have hinj : ∀ k ∈ keys (picked sealedRun), ∀ k' ∈ keys (picked sealedRun),
      Int32.ofNat k.length = Int32.ofNat k'.length → k = k' := by
    rw [hkeys]
    decide +kernel
  have hok := ofSurface_eq_ok (fun key => Int32.ofNat key.length) hbases hlen hinj
  refine ⟨hbases, _, hok, (ofSurface_collected _ sealedRun hbases).1 _ hok, ?_⟩
  rw [map_key_numbered, hkeys]

end Plan

end Proxy

end ProxyForge
