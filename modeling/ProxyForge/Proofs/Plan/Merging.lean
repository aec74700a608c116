import ProxyForge.Proofs.Plan.Members
import ProxyForge.Proofs.Signature
/-!
# Which candidates are one member

The collector tells candidates apart by their keys. Since keys tell signatures apart, it passes over
a candidate exactly if one in front of it has the same name, parameters and result, or if the base
has sealed that member (`Plan.merged_iff_same`).
-/

namespace ProxyForge

/-- A surface whose methods have signatures of types that source texts name. -/
def Surface.HasSourceSignatures (s : Surface) : Prop :=
  ∀ c ∈ s.contracts, ∀ m ∈ c.methods, m.signature.IsSource

namespace Proxy

/-- **A member that the base has sealed**: by a final method of its signature that instances
inherit. -/
def SealedMember (s : Surface) (t : Signature) : Prop :=
  ∃ c ∈ s.contracts, c.kind = .baseClass ∧ ∃ m ∈ c.methods, m.signature = t ∧
    m.isFinal = true ∧ m.isStatic = false ∧ m.visibility ≠ .privateAccess

namespace Plan

variable {hash : String → Int32} {s : Surface} {base : Option Contract} {choice choice' : Choice}
  {c : Candidate} {cs : List Candidate} {key : String} {t : Signature} {p : Plan}

/-! ## Signatures in a surface -/

/-- What universal members are made of is named by source texts. -/
theorem isSource_universalSignatures : ∀ t ∈ universalSignatures, t.IsSource := by
  have hobject : JvmType.anyObject.IsSource := ⟨"java.lang.Object", by cbv⟩
  have hstring : (JvmType.object "java.lang.String").IsSource := ⟨"java.lang.String", by cbv⟩
  intro t ht
  simp only [universalSignatures, List.mem_cons, List.not_mem_nil, or_false] at ht
  rcases ht with rfl | rfl | rfl
  · exact ⟨List.forall_mem_singleton.2 hobject, "boolean", by cbv⟩
  · exact ⟨List.forall_mem_nil _, "int", by cbv⟩
  · exact ⟨List.forall_mem_nil _, hstring⟩

/-- **The signature of a candidate** is made of types that source texts name. -/
theorem isSource_of_mem_candidates (hs : s.HasSourceSignatures) (hc : c ∈ candidates s.base s) :
    c.signature.IsSource := by
  rcases of_mem_candidates hc with huniversal | ⟨d, hd, m, hm, -, rfl⟩
  · exact isSource_universalSignatures _ (of_mem_universals huniversal).2
  · exact hs d hd m hm

/-- A sealed key is that of a sealed member. -/
theorem sealed_key_iff (hs : s.HasSourceSignatures) (ht : t.IsSource) :
    Sealed s t.key ↔ SealedMember s t := by
  constructor
  · rintro ⟨c, hc, hkind, m, hm, hkey, hsealed⟩
    exact ⟨c, hc, hkind, m, hm, ((hs c hc m hm).key_inj ht).1 hkey, hsealed⟩
  · rintro ⟨c, hc, hkind, m, hm, rfl, hsealed⟩
    exact ⟨c, hc, hkind, m, hm, rfl, hsealed⟩

/-! ## One candidate after the other -/

/-- **A candidate is passed over** exactly if its key was seen. -/
theorem consider_eq_self_iff :
    consider hash choice c = .ok choice ↔ choice.seen.contains c.signature.key = true := by
  unfold consider
  dsimp only
  split
  · next hseen => exact ⟨fun _ => hseen, fun _ => rfl⟩
  · next hseen =>
    refine ⟨fun h => ?_, fun h => absurd h hseen⟩
    split at h
    · cases h
    · split at h
      · cases h
      · -- there is one more member than before
        have hsize := congrArg (fun x => x.members.size) (Except.ok.inj h)
        rw [Array.size_push] at hsize
        omega

/-- The key of a candidate is seen, whether it is planned or passed over. -/
theorem contains_of_consider (h : consider hash choice c = .ok choice') :
    choice'.seen.contains key = true ↔
      choice.seen.contains key = true ∨ key = c.signature.key := by
  unfold consider at h
  dsimp only at h
  split at h
  · next hseen =>
    cases h
    exact ⟨.inl, fun h => h.elim id fun heq => heq ▸ hseen⟩
  · split at h
    · cases h
    · split at h
      · cases h
      · cases h
        rw [Std.HashSet.contains_insert, Bool.or_eq_true, beq_iff_eq, or_comm, eq_comm (a := key)]

/-- **The keys that were seen** behind candidates are those seen before and those of the
candidates. -/
theorem contains_of_foldlM (h : cs.foldlM (consider hash) choice = .ok choice') :
    choice'.seen.contains key = true ↔ choice.seen.contains key = true ∨ key ∈ keys cs := by
  induction cs generalizing choice with
  | nil =>
    cases h
    simp
  | cons c cs ih =>
    rw [List.foldlM_cons] at h
    obtain ⟨next, hnext, hrest⟩ := Outcome.bind_eq_ok.1 h
    rw [ih hrest, contains_of_consider hnext, keys_cons, List.mem_cons, or_assoc]

/-- **A candidate is passed over** exactly if its key is sealed or that of one in front of it. -/
theorem consider_behind_iff {front : List Candidate}
    (h : front.foldlM (consider hash) ⟨.ofList (sealedKeys base), ∅, #[]⟩ = .ok choice) :
    consider hash choice c = .ok choice ↔
      c.signature.key ∈ sealedKeys base ∨ c.signature.key ∈ keys front := by
  rw [consider_eq_self_iff, contains_of_foldlM h]
  exact or_congr_left ((holds_start hash (sealedKeys base)).seen_iff _)

/-! ## Members and signatures -/

/-- **Declarations are one member exactly if they are the same.** Where source texts name all types,
signatures with one key have the same name, parameters and result, whatever is in their names. So
the collector passes over a candidate exactly if one in front of it has the same signature, or a
final method of the base that instances inherit has. In a plan no two members have the same
signature, and each candidate that is not sealed has its member there. -/
theorem merged_iff_same :
    (∀ t u : Signature, t.IsSource → u.IsSource → (t.key = u.key ↔ t = u)) ∧
    ∀ (hash : String → Int32) (s : Surface) (base : Option Contract), s.HasSourceSignatures →
      baseOf s = .ok base →
      (∀ front c back choice, candidates base s = front ++ c :: back →
        front.foldlM (consider hash) ⟨.ofList (sealedKeys base), ∅, #[]⟩ = .ok choice →
        (consider hash choice c = .ok choice ↔
          SealedMember s c.signature ∨ ∃ d ∈ front, d.signature = c.signature)) ∧
      ∀ p, ofSurface hash s = .ok p →
        (p.members.map fun m => m.signature).Nodup ∧
        ∀ c ∈ candidates base s,
          (∃ m ∈ p.members, m.signature = c.signature) ↔ ¬ SealedMember s c.signature := by
  refine ⟨fun t u ht hu => ht.key_inj hu, fun hash s base hs hbase => ?_⟩
  have hlen := length_bases_le hbase
  obtain rfl : s.base = base := Except.ok.inj ((baseOf_ok hlen).1.symm.trans hbase)
  have hsource : ∀ c ∈ candidates s.base s, c.signature.IsSource :=
    fun c hc => isSource_of_mem_candidates hs hc
  refine ⟨fun front c back choice hsplit hfront => ?_, fun p hp => ⟨?_, fun c hc => ?_⟩⟩
  · have hall : ∀ d ∈ front ++ c :: back, d.signature.IsSource := hsplit ▸ hsource
    have hc := hall c (List.mem_append_right _ List.mem_cons_self)
    have hfronts : ∀ t ∈ front.map (·.signature), t.IsSource := by
      intro t ht
      obtain ⟨d, hd, rfl⟩ := List.mem_map.1 ht
      exact hall d (List.mem_append_left _ hd)
    have hkeys : keys front = (front.map (·.signature)).map Signature.key := by
      rw [List.map_map]
      rfl
    rw [consider_behind_iff hfront, mem_sealedKeys hlen, sealed_key_iff hs hc, hkeys,
      hc.key_mem_map hfronts, List.mem_map]
  · obtain ⟨rfl, -, -⟩ := eq_of_ofSurface hp
    have hnodup : (keys (picked s)).Nodup := nodup_keys_firsts _ _
    have hmap : keys (picked s) =
        ((numbered hash (picked s)).map fun m => m.signature).map Signature.key := by
      rw [← map_key_numbered hash, List.map_map]
      rfl
    rw [hmap] at hnodup
    exact hnodup.of_map _
  · have hcs := hsource c hc
    rw [← sealed_key_iff hs hcs, ← mem_sealedKeys hlen]
    constructor
    · rintro ⟨m, hm, heq⟩ hsealed
      have hkey := mem_keys_firsts.1 (List.mem_map_of_mem (toCandidate_mem_picked hp hm))
      exact hkey.2 (heq ▸ hsealed)
    · intro hsealed
      have hkey : c.signature.key ∈ keys (picked s) :=
        mem_keys_firsts.2 ⟨List.mem_map_of_mem hc, hsealed⟩
      obtain ⟨rfl, -, -⟩ := eq_of_ofSurface hp
      rw [← map_key_numbered hash] at hkey
      obtain ⟨m, hm, heq⟩ := List.mem_map.1 hkey
      have hmem := (firsts_sublist _ _).subset (toCandidate_mem_picked hp hm)
      exact ⟨m, hm, ((hsource _ hmem).key_inj hcs).1 heq⟩

/-- A class that seals the method `a(V`, which has no parameters, and an interface that asks for it
and for the method `a` of a `void`. -/
def parenthesized : Surface where
  contracts :=
    [(Contract.ofClass "Base").addMethod
        { Method.ofSignature ⟨"a(V", [], .void⟩ with isFinal := true },
      ((Contract.ofInterface "Api").addMethod (.ofSignature ⟨"a(V", [], .void⟩)).addMethod
        (.ofSignature ⟨"a", [.void], .void⟩)]

/-- The keys of its methods differ, and the second one is planned in spite of the first. -/
theorem merged_iff_same_parenthesized :
    parenthesized.HasSourceSignatures ∧
      (Signature.mk "a(V" [] .void).key ≠ (Signature.mk "a" [.void] .void).key ∧
      ∃ p, ofSurface (fun key => Int32.ofNat key.length) parenthesized = .ok p ∧
        (p.members.map fun m => m.signature).Nodup ∧
        ∃ m ∈ p.members, m.signature = ⟨"a", [.void], .void⟩ := by
  have hvoid : JvmType.void.IsSource := ⟨"void", by cbv⟩
  have hplain : (Signature.mk "a(V" [] .void).IsSource := ⟨List.forall_mem_nil _, hvoid⟩
  have hparam : (Signature.mk "a" [.void] .void).IsSource :=
    ⟨List.forall_mem_singleton.2 hvoid, hvoid⟩
  have hsource : parenthesized.HasSourceSignatures := by
    refine List.forall_mem_cons.2 ⟨?_, List.forall_mem_singleton.2 ?_⟩
    · exact List.forall_mem_singleton.2 hplain
    · exact List.forall_mem_cons.2 ⟨hplain, List.forall_mem_singleton.2 hparam⟩
  obtain ⟨hkeys, hmerged⟩ := merged_iff_same
  obtain ⟨-, hplan⟩ := hmerged (fun key => Int32.ofNat key.length) parenthesized parenthesized.base
    hsource rfl
  have hpicked : keys (picked parenthesized) = ["equals(Ljava/lang/Object;)Z", "hashCode()I",
      "toString()Ljava/lang/String;", "a(V)V"] := by
    decide +kernel
  have hok := ofSurface_of_keys (fun key => Int32.ofNat key.length) (by decide) hpicked
    (by decide) (by decide +kernel)
  obtain ⟨hnodup, hmembers⟩ := hplan _ hok
  refine ⟨hsource, fun heq => ?_, _, hok, hnodup, ?_⟩
  · have hsame := (hkeys _ _ hplain hparam).1 heq
    exact absurd (congrArg Signature.params hsame) (List.cons_ne_nil _ _).symm
  · have hcandidate : candidate .interface "Api" (.ofSignature ⟨"a", [.void], .void⟩) ∈
        candidates parenthesized.base parenthesized := by decide +kernel
    refine (hmembers _ hcandidate).2 ?_
    rintro ⟨c, hc, hkind, m, hm, heq, -⟩
    rcases List.mem_cons.1 hc with rfl | hc
    · obtain rfl := List.mem_singleton.1 hm
      exact absurd (congrArg Signature.params heq) (List.cons_ne_nil _ _).symm
    · obtain rfl := List.mem_singleton.1 hc
      cases hkind

end Plan

end Proxy

end ProxyForge
