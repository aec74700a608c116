import ProxyForge.Proofs.Plan.Members
/-!
# When universal members are planned

Two tests decide about `equals`, `hashCode` and `toString`: the keys that the base has sealed are
planned nowhere, and the first method that the base lists with the key of a universal member takes
the member away if it is final. The tests agree unless that method is static or private and so seals
nothing (`Masked`): then the universal member is left out although the base has no implementation
that stays. `Plan.universal_kept_iff` says that this is the only case.
-/

namespace ProxyForge

namespace Proxy

/-- **A universal member that is masked**: the first method that the base lists with its key is
final, and static or private; and none with its key is final and inherited by instances. -/
def Masked (s : Surface) (t : Signature) : Prop :=
  ¬ Sealed s t.key ∧ ∃ c ∈ s.contracts, c.kind = .baseClass ∧ ∃ m,
    c.methods.find? (fun m => m.key = t.key) = some m ∧ m.isFinal = true ∧
      (m.isStatic = true ∨ m.visibility = .privateAccess)

/-- **A member of a plan in front of all that stem from contracts.** -/
def Plan.Leads (p : Plan) (t : Signature) : Prop :=
  ∃ front m back, p.members = front ++ m :: back ∧ m.signature = t ∧ m.origin = .universal ∧
    ∀ m' ∈ front, m'.origin = .universal

variable {hash : String → Int32} {s : Surface} {t u : Signature} {p : Plan} {m : Planned}

/-- A member is masked exactly if it is neither offered nor sealed. -/
theorem masked_iff : Masked s t ↔ ¬ Sealed s t.key ∧ ¬ UniversalOffered s t := by
  refine and_congr_right fun hsealed => ⟨?_, fun hoffered => ?_⟩
  · rintro ⟨c, hc, hkind, m, hm, hfinal, -⟩ hoffered
    rw [hoffered c hc hkind m hm] at hfinal
    cases hfinal
  · unfold UniversalOffered at hoffered
    push Not at hoffered
    obtain ⟨c, hc, hkind, m, hm, hfinal⟩ := hoffered
    refine ⟨c, hc, hkind, m, hm, eq_true_of_ne_false hfinal, ?_⟩
    -- otherwise the method would seal its key
    by_contra hnot
    rw [not_or, Bool.not_eq_true] at hnot
    exact hsealed ⟨c, hc, hkind, m, List.mem_of_find?_eq_some hm, by simpa using List.find?_some hm,
      eq_true_of_ne_false hfinal, hnot⟩

namespace Plan

/-- Universal members are told apart by their keys. -/
theorem universalSignatures_inj (ht : t ∈ universalSignatures) (hu : u ∈ universalSignatures)
    (h : t.key = u.key) : t = u := by
  have hall : ∀ t ∈ universalSignatures, ∀ u ∈ universalSignatures, t.key = u.key → t = u := by
    decide +kernel
  exact hall t ht u hu h

/-- **A universal member that is offered leads the plan**, unless its key is sealed. -/
theorem leads_of_offered (h : ofSurface hash s = .ok p) (ht : t ∈ universalSignatures)
    (hsealed : ¬ Sealed s t.key) (hoffered : UniversalOffered s t) : p.Leads t := by
  have hlen := length_bases_of_ofSurface h
  obtain ⟨rfl, -, -⟩ := eq_of_ofSurface h
  -- the candidate for it is among the first ones, and those in front of it are universal, too
  have hkey : t.key ∈ keys (firsts (sealedKeys s.base) (universals s.base)) :=
    mem_keys_firsts.2 ⟨(mem_keys_universals hlen).2 ⟨t, ht, rfl, hoffered⟩,
      mt (mem_sealedKeys hlen).1 hsealed⟩
  obtain ⟨d, hd, hdkey⟩ := List.mem_map.1 hkey
  have hall : ∀ d ∈ firsts (sealedKeys s.base) (universals s.base),
      d.origin = .universal ∧ d.signature ∈ universalSignatures :=
    fun d hd => of_mem_universals ((firsts_sublist _ _).subset hd)
  obtain ⟨before, after, hsplit⟩ := List.append_of_mem hd
  obtain ⟨seen, happend, -⟩ :=
    firsts_append (sealedKeys s.base) (universals s.base) ((listed s).filterMap offer)
  have hpicked : picked s =
      before ++ d :: (after ++ firsts seen ((listed s).filterMap offer)) := by
    rw [picked, candidates_eq, happend, hsplit, List.append_assoc, List.cons_append]
  obtain ⟨front, back, hmembers, hfront, hback⟩ := exists_of_numbered_append hash hpicked
  obtain ⟨m, rest, rfl, rfl, -⟩ := List.map_eq_cons_iff.1 hback
  refine ⟨front, m, rest, hmembers, ?_, (hall _ hd).1, fun m' hm' => ?_⟩
  · exact universalSignatures_inj (hall _ hd).2 ht hdkey
  · have hmem : m'.toCandidate ∈ before := hfront ▸ List.mem_map_of_mem hm'
    exact (hall _ (hsplit ▸ List.mem_append_left _ hmem)).1

/-- **A universal member that is planned was offered.** -/
theorem offered_of_mem (h : ofSurface hash s = .ok p) (ht : t ∈ universalSignatures)
    (hm : m ∈ p.members) (hkey : m.key = t.key) (horigin : m.origin = .universal) :
    UniversalOffered s t := by
  rcases of_mem_candidates ((firsts_sublist _ _).subset (toCandidate_mem_picked h hm)) with
    huniversal | ⟨c, -, method, -, -, heq⟩
  · have hkeys : t.key ∈ keys (universals s.base) := hkey ▸ List.mem_map_of_mem huniversal
    obtain ⟨u, hu, heq, hoffered⟩ :=
      (mem_keys_universals (length_bases_of_ofSurface h)).1 hkeys
    exact universalSignatures_inj hu ht heq ▸ hoffered
  · have hlistedOrigin : m.origin = originOf c := congrArg Candidate.origin heq
    rw [horigin, originOf] at hlistedOrigin
    split at hlistedOrigin <;> cases hlistedOrigin

/-- **Universal members are kept unless they are masked.** Such a member leads the plan, or its key
is sealed and planned nowhere, exactly if it is not masked. If it is, its key is planned only for an
eligible method that a contract lists, and not as that of a universal member. -/
theorem universal_kept_iff (h : ofSurface hash s = .ok p) (ht : t ∈ universalSignatures) :
    ((Sealed s t.key ∧ ∀ m ∈ p.members, m.key ≠ t.key) ∨ (¬ Sealed s t.key ∧ p.Leads t) ↔
      ¬ Masked s t) ∧
    (Masked s t →
      (∀ m ∈ p.members, m.key = t.key → m.origin ≠ .universal) ∧
      ((∃ m ∈ p.members, m.key = t.key) ↔
        ∃ c m, (c, m) ∈ listed s ∧ Eligible c m ∧ m.key = t.key)) := by
  have hplanned : (∃ m ∈ p.members, m.key = t.key) ↔ Kept s t.key := exists_key_iff h
  have hnone : Masked s t → ∀ m ∈ p.members, m.key = t.key → m.origin ≠ .universal :=
    fun hmasked m hm hkey horigin =>
      (masked_iff.1 hmasked).2 (offered_of_mem h ht hm hkey horigin)
  refine ⟨⟨?_, fun hnot => ?_⟩, fun hmasked => ⟨hnone hmasked, ?_⟩⟩
  · rintro (⟨hsealed, -⟩ | ⟨-, front, m, back, hmembers, rfl, horigin, -⟩) hmasked
    · exact hmasked.1 hsealed
    · refine hnone hmasked m ?_ rfl horigin
      rw [hmembers]
      exact List.mem_append_right _ List.mem_cons_self
  · by_cases hsealed : Sealed s t.key
    · refine .inl ⟨hsealed, fun m hm hkey => ?_⟩
      exact (hplanned.1 ⟨m, hm, hkey⟩).1 hsealed
    · have hoffered : UniversalOffered s t := by
        by_contra hoffered
        exact hnot (masked_iff.2 ⟨hsealed, hoffered⟩)
      exact .inr ⟨hsealed, leads_of_offered h ht hsealed hoffered⟩
  · obtain ⟨hsealed, hoffered⟩ := masked_iff.1 hmasked
    rw [hplanned]
    constructor
    · rintro ⟨-, ⟨u, hu, hkey, hu'⟩ | heligible⟩
      · exact absurd (universalSignatures_inj hu ht hkey ▸ hu') hoffered
      · exact heligible
    · exact fun heligible => ⟨hsealed, .inr heligible⟩

/-- A class that lists a private `equals`, a final `hashCode` that is static, and a final
`toString`; and an interface that asks for `hashCode`. -/
def redeclared : Surface where
  contracts :=
    [(((Contract.ofClass "Base").addMethod
        { Method.ofSignature ⟨"equals", [.anyObject], .primitive .boolean⟩ with
          visibility := .privateAccess }).addMethod
        { Method.ofSignature ⟨"hashCode", [], .primitive .int⟩ with
          isFinal := true, isStatic := true }).addMethod
        { Method.ofSignature ⟨"toString", [], .object "java.lang.String"⟩ with isFinal := true },
      (Contract.ofInterface "Api").addMethod (.ofSignature ⟨"hashCode", [], .primitive .int⟩)]

/-- The first leads the plan, the second is left to the interface, and the third is sealed. -/
theorem universal_kept_iff_redeclared :
    ∃ p, ofSurface (fun key => Int32.ofNat key.length) redeclared = .ok p ∧
      p.Leads ⟨"equals", [.anyObject], .primitive .boolean⟩ ∧
      Masked redeclared ⟨"hashCode", [], .primitive .int⟩ ∧
      (∀ m ∈ p.members, m.key = Signature.key ⟨"hashCode", [], .primitive .int⟩ →
        m.origin ≠ .universal) ∧
      ∀ m ∈ p.members, m.key ≠ Signature.key ⟨"toString", [], .object "java.lang.String"⟩ := by
  have hbases : redeclared.bases.length ≤ 1 := by decide
  have hkeys : keys (picked redeclared) = ["equals(Ljava/lang/Object;)Z", "hashCode()I"] := by
    decide +kernel
  have hok := ofSurface_of_keys (fun key => Int32.ofNat key.length) hbases hkeys
    (by decide) (by decide +kernel)
  have hequals : ¬ Sealed redeclared
      (Signature.key ⟨"equals", [.anyObject], .primitive .boolean⟩) :=
    mt (mem_sealedKeys hbases).2 (by decide +kernel)
  have hhash : ¬ Sealed redeclared (Signature.key ⟨"hashCode", [], .primitive .int⟩) :=
    mt (mem_sealedKeys hbases).2 (by decide +kernel)
  have hstring : Sealed redeclared
      (Signature.key ⟨"toString", [], .object "java.lang.String"⟩) :=
    (mem_sealedKeys hbases).1 (by decide +kernel)
  have hmasked : Masked redeclared ⟨"hashCode", [], .primitive .int⟩ :=
    ⟨hhash, _, List.mem_cons_self, rfl, { Method.ofSignature ⟨"hashCode", [], .primitive .int⟩ with
      isFinal := true, isStatic := true }, by decide +kernel, rfl, .inl rfl⟩
  -- the private method is not final, so it masks nothing
  have hplain : ¬ Masked redeclared ⟨"equals", [.anyObject], .primitive .boolean⟩ := by
    rintro ⟨-, c, hc, hkind, m, hm, hfinal, -⟩
    rcases List.mem_cons.1 hc with rfl | hc
    · have hfirst := congrArg (Option.map Method.isFinal) hm
      rw [Option.map_some, hfinal] at hfirst
      exact absurd hfirst (by decide +kernel)
    · obtain rfl := List.mem_singleton.1 hc
      cases hkind
  refine ⟨_, hok, ?_, hmasked, ?_, ?_⟩
  · rcases (universal_kept_iff hok (t := ⟨"equals", [.anyObject], .primitive .boolean⟩)
      (by decide)).1.2 hplain with ⟨h, -⟩ | ⟨-, hleads⟩
    · exact absurd h hequals
    · exact hleads
  · exact ((universal_kept_iff hok (by decide)).2 hmasked).1
  · rcases (universal_kept_iff hok (t := ⟨"toString", [], .object "java.lang.String"⟩)
      (by decide)).1.2 fun h => h.1 hstring with ⟨-, hnone⟩ | ⟨h, -⟩
    · exact hnone
    · exact absurd hstring h

end Plan

end Proxy

end ProxyForge
