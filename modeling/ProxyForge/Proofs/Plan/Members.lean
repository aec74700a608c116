import ProxyForge.Proofs.Plan.Reference
/-!
# The members of a plan

What code that is generated for a plan may count on: the ids and the slots of members are their own
(`Plan.numbered_of_ofSurface`), and each member is universal or stems from a method that a contract
lists (`Plan.stems_of_mem`).
-/

namespace ProxyForge

namespace Proxy

open Outcome

/-- **The members of a plan are told apart** by their ids, and by their slots. -/
structure Plan.Numbered (members : List Planned) : Prop where
  ids : (members.map fun p => p.id).Nodup
  slots : (members.map fun p => p.slot).Nodup

/-- **Where a member stems from**: it is universal, or a contract lists a method with its
signature. -/
inductive Planned.Stems (s : Surface) (p : Planned) : Prop
  | universal (horigin : p.origin = .universal)
      (hsignature : p.signature ∈ Plan.universalSignatures)
  | listed (c : Contract) (m : Method) (hc : c ∈ s.contracts) (hm : m ∈ c.methods)
      (hsignature : p.signature = m.signature) (horigin : p.origin = originOf c)

namespace Plan

variable {hash : String → Int32} {s : Surface} {plan : Plan}

/-- A surface whose base is found has at most one. -/
theorem length_bases_le {base : Option Contract} (h : baseOf s = .ok base) :
    s.bases.length ≤ 1 := by
  unfold baseOf at h
  split at h
  · rename_i hbases
    rw [hbases]
    exact Nat.zero_le _
  · rename_i hbases
    rw [hbases]
    exact Nat.le_refl _
  · cases h

/-- **The plan of a surface** has the planned candidates, which have ids of their own. -/
theorem eq_of_ofSurface (h : ofSurface hash s = .ok plan) :
    plan = ⟨numbered hash (picked s), s.base⟩ ∧ (picked s).length ≤ limit ∧
      ∀ k ∈ keys (picked s), ∀ k' ∈ keys (picked s), hash k = hash k' → k = k' := by
  obtain ⟨base, hbase, -⟩ := bind_eq_ok.1 h
  rcases ofSurface_eq hash (length_bases_le hbase) with ⟨hok, hlen, hinj⟩ | ⟨e, he, -⟩
  · exact ⟨Except.ok.inj (h.symm.trans hok), hlen, hinj⟩
  · cases h.symm.trans he

theorem map_slot_numbered (hash : String → Int32) (cs : List Candidate) :
    (numbered hash cs).map (fun p => p.slot) = (List.range cs.length).map UInt16.ofNat := by
  have hplaces := congrArg (List.map UInt16.ofNat) (List.zipIdx_map_snd 0 cs)
  rw [List.map_map, ← List.range_eq_range'] at hplaces
  rw [← hplaces, numbered, List.map_map]
  rfl

/-- **The slot of a member is its place** in the plan. -/
theorem slot_of_mem_zipIdx (h : ofSurface hash s = .ok plan) {p : Planned} {i : Nat}
    (hp : (p, i) ∈ plan.members.zipIdx) : p.slot.toNat = i := by
  obtain ⟨rfl, hlen, -⟩ := eq_of_ofSurface h
  have hget : (numbered hash (picked s))[i]? = some p := List.mk_mem_zipIdx_iff_getElem?.1 hp
  have hslot : (List.map (fun p => p.slot) (numbered hash (picked s)))[i]? = some p.slot := by
    rw [List.getElem?_map, hget]
    rfl
  have hlt : i < (picked s).length := by
    rw [← length_numbered hash]
    exact (List.getElem?_eq_some_iff.1 hget).1
  rw [map_slot_numbered, List.getElem?_map, List.getElem?_range hlt] at hslot
  rw [← Option.some.inj hslot, UInt16.toNat_ofNat']
  unfold limit at hlen
  omega

/-- **Members are told apart** by their ids and by their slots. -/
theorem numbered_of_ofSurface (h : ofSurface hash s = .ok plan) : Numbered plan.members := by
  obtain ⟨rfl, hlen, hinj⟩ := eq_of_ofSurface h
  have hkeys : (keys (picked s)).Nodup := nodup_keys_firsts _ _
  constructor
  · change ((numbered hash (picked s)).map fun p => p.id).Nodup
    rw [map_id_numbered]
    exact hkeys.map_on hinj
  · change ((numbered hash (picked s)).map fun p => p.slot).Nodup
    rw [map_slot_numbered]
    refine List.nodup_range.map_on fun i hi j hj heq => ?_
    rw [List.mem_range] at hi hj
    have hmod := congrArg UInt16.toNat heq
    rw [UInt16.toNat_ofNat', UInt16.toNat_ofNat'] at hmod
    unfold limit at hlen
    omega

theorem length_bases_of_ofSurface (h : ofSurface hash s = .ok plan) : s.bases.length ≤ 1 := by
  obtain ⟨base, hbase, -⟩ := bind_eq_ok.1 h
  exact length_bases_le hbase

/-- **The keys of members** are those that are kept. -/
theorem exists_key_iff (h : ofSurface hash s = .ok plan) {key : String} :
    (∃ m ∈ plan.members, m.key = key) ↔ Kept s key := by
  rw [← mem_keys_picked (length_bases_of_ofSurface h)]
  obtain ⟨rfl, -, -⟩ := eq_of_ofSurface h
  rw [← map_key_numbered hash, List.mem_map]

/-- A member is a planned candidate. -/
theorem toCandidate_mem_picked (h : ofSurface hash s = .ok plan) {p : Planned}
    (hp : p ∈ plan.members) : p.toCandidate ∈ picked s := by
  obtain ⟨rfl, -, -⟩ := eq_of_ofSurface h
  rw [← map_toCandidate_numbered hash (picked s)]
  exact List.mem_map_of_mem hp

/-- **A member is universal or stems from a listed method.** -/
theorem stems_of_mem (h : ofSurface hash s = .ok plan) {p : Planned} (hp : p ∈ plan.members) :
    p.Stems s := by
  rcases of_mem_candidates ((firsts_sublist _ _).subset (toCandidate_mem_picked h hp)) with
    huniversal | ⟨c, hc, m, hm, -, heq⟩
  · obtain ⟨horigin, hsignature⟩ := of_mem_universals huniversal
    exact .universal horigin hsignature
  · exact .listed c m hc hm (congrArg Candidate.signature heq) (congrArg Candidate.origin heq)

end Plan

end Proxy

end ProxyForge
