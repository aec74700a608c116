import Mathlib.Data.List.Induction
import ProxyForge.Proofs.Growth
/-!
# Requests on a pool

A pool is built by requests, one after the other, some of which fail. A request asks for constants
in turn, each made from the indexes of those in front of it (`Request.parts`); one that fails has
asked for a constant that is new and does not fit (`Request.run_eq_error`). What was assigned is
never taken back, so the pool that is read back from its bytes holds exactly what was assigned on
the way, the parts of failing requests included (`requests_agree`).
-/

namespace ProxyForge

open Outcome

/-! ## Requests -/

/-- A constant that is made from the indexes of those that were asked for before. -/
abbrev Part := List UInt16 → Constant

/-- A request for an index. -/
inductive Request
  | utf8 (text : String)
  | integer (value : Int32)
  | classRef (name : String)
  | string (text : String)
  | nameAndType (name descriptor : String)
  | fieldRef (owner name descriptor : String)
  | methodRef (owner name descriptor : String) (inInterface : Bool)
  | add (c : Constant)
  deriving DecidableEq, Repr

namespace Request

/-- What the request does. -/
def run : Request → Interner UInt16
  | utf8 text => Interner.utf8 text
  | integer value => Interner.integer value
  | classRef name => Interner.classRef name
  | string text => Interner.string text
  | nameAndType name descriptor => Interner.nameAndType name descriptor
  | fieldRef owner name descriptor => Interner.fieldRef owner name descriptor
  | methodRef owner name descriptor inInterface =>
    Interner.methodRef owner name descriptor inInterface
  | add c => Interner.constant c

/-- **The constants that a request asks for**, the one whose index it returns last. -/
def parts : Request → List Part
  | utf8 text => [fun _ => .utf8 text]
  | integer value => [fun _ => .integer value]
  | classRef name => [fun _ => .utf8 name, fun is => .classRef (is.getD 0 0)]
  | string text => [fun _ => .utf8 text, fun is => .string (is.getD 0 0)]
  | nameAndType name descriptor =>
    [fun _ => .utf8 name, fun _ => .utf8 descriptor,
      fun is => .nameAndType (is.getD 0 0) (is.getD 1 0)]
  | fieldRef owner name descriptor =>
    [fun _ => .utf8 owner, fun is => .classRef (is.getD 0 0), fun _ => .utf8 name,
      fun _ => .utf8 descriptor, fun is => .nameAndType (is.getD 2 0) (is.getD 3 0),
      fun is => .fieldRef (is.getD 1 0) (is.getD 4 0)]
  | methodRef owner name descriptor inInterface =>
    [fun _ => .utf8 owner, fun is => .classRef (is.getD 0 0), fun _ => .utf8 name,
      fun _ => .utf8 descriptor, fun is => .nameAndType (is.getD 2 0) (is.getD 3 0),
      fun is => if inInterface then .interfaceMethodRef (is.getD 1 0) (is.getD 4 0)
        else .methodRef (is.getD 1 0) (is.getD 4 0)]
  | add c => [fun _ => c]

/-- The texts that a request names. -/
def texts : Request → List String
  | utf8 text | string text | add (.utf8 text) => [text]
  | classRef name => [name]
  | nameAndType name descriptor => [name, descriptor]
  | fieldRef owner name descriptor | methodRef owner name descriptor _ => [owner, name, descriptor]
  | integer _ | add _ => []

/-- **What an index stands for** if it was returned for a request. -/
def Resolves (p : Pool) (i : UInt16) : Request → Prop
  | utf8 text => p.utf8 i = .ok text
  | integer value => p.get i = .ok (.integer value)
  | classRef name => p.className i = .ok name
  | string text => ∃ j, p.get i = .ok (.string j) ∧ p.utf8 j = .ok text
  | nameAndType name descriptor => p.nameAndType i = .ok (name, descriptor)
  | fieldRef owner name descriptor => p.memberRef i = .ok ⟨owner, name, descriptor, false⟩
  | methodRef owner name descriptor inInterface =>
    p.memberRef i = .ok ⟨owner, name, descriptor, inInterface⟩
  | add c => p.get i = .ok c

end Request

/-! ## Parts in turn -/

/-- Ask for parts in turn, behind indexes that are known. -/
def Interner.parts : List Part → List UInt16 → Interner (List UInt16)
  | [], is => return is
  | part :: rest, is => do
    let i ← constant (part is)
    parts rest (is ++ [i])

/-- **A constant is asked for** when parts are interned from a pool on, and the pool that is there
when its turn comes. -/
inductive Asked : PoolBuilder → List Part → List UInt16 → Constant → PoolBuilder → Prop
  | first (b : PoolBuilder) (part : Part) (rest : List Part) (is : List UInt16) :
      Asked b (part :: rest) is (part is) b
  | later {b b₁ b' : PoolBuilder} {part : Part} {rest : List Part} {is : List UInt16} {i : UInt16}
      {c : Constant} (hfirst : Interner.constant (part is) b = .ok i b₁)
      (hlater : Asked b₁ rest (is ++ [i]) c b') : Asked b (part :: rest) is c b'

variable {b b' b'' : PoolBuilder} {parts : List Part} {is is' : List UInt16} {i j : UInt16}
  {c c' : Constant} {e : EmissionError} {r : Request} {rs : List Request}

namespace Interner

theorem extending_parts (parts : List Part) (is : List UInt16) :
    Extending (Interner.parts parts is) := by
  induction parts generalizing is with
  | nil => exact .pure is
  | cons part rest ih => exact (Extending.constant _).bind fun i => ih _

/-- **Parts fail** exactly if a constant that is asked for fails. -/
theorem parts_eq_error : Interner.parts parts is b = .error e b' ↔
    ∃ c, Asked b parts is c b' ∧ constant c b' = .error e b' := by
  induction parts generalizing is b with
  | nil =>
    refine ⟨nofun, ?_⟩
    rintro ⟨c, ⟨⟩, -⟩
  | cons part rest ih =>
    unfold Interner.parts
    cases hfirst : constant (part is) b with
    | error e₁ b₁ =>
      rw [bind_run_error hfirst]
      obtain ⟨rfl, -⟩ := constant_eq_error.1 hfirst
      constructor
      · rintro ⟨⟩
        exact ⟨_, .first _ part rest is, hfirst⟩
      · rintro ⟨c, hasked, hc⟩
        cases hasked with
        | first =>
          cases hfirst.symm.trans hc
          rfl
        | later hok => cases hfirst.symm.trans hok
    | ok i b₁ =>
      rw [bind_run_eq hfirst, ih]
      constructor
      · rintro ⟨c, hasked, hc⟩
        exact ⟨c, .later hfirst hasked, hc⟩
      · rintro ⟨c, hasked, hc⟩
        cases hasked with
        | first => cases hfirst.symm.trans hc
        | later hok hlater =>
          cases hfirst.symm.trans hok
          exact ⟨c, hlater, hc⟩

/-- **Parts that were interned once** have the same indexes in every pool that grew from there. -/
theorem parts_again (h : Interner.parts parts is b = .ok is' b') (hgrows : b'.Grows b'') :
    Interner.parts parts is b'' = .ok is' b'' := by
  induction parts generalizing is b with
  | nil =>
    cases h
    rfl
  | cons part rest ih =>
    obtain ⟨i, b₁, hfirst, hrest⟩ := bind_run_ok.1 h
    have hlater := ((extending_parts rest _).of_ok hrest).grows.trans hgrows
    have hfound := hlater _ _ (constant_ok hfirst).2
    exact (bind_run_eq (constant_of_getElem? (Pool.get_eq_ok.1 hfound)) _).trans (ih hrest)

end Interner

namespace Asked

/-- What is asked for is one of the parts. -/
theorem exists_part (h : Asked b parts is c b') : ∃ part ∈ parts, ∃ js, part js = c := by
  induction h with
  | first b part rest is => exact ⟨part, List.mem_cons_self, is, rfl⟩
  | later _ _ ih =>
    obtain ⟨part, hmem, js, heq⟩ := ih
    exact ⟨part, List.mem_cons_of_mem _ hmem, js, heq⟩

/-- **What was assigned stays**, whether the rest succeeds or fails. -/
theorem grows_poolAfter (h : Asked b parts is c b') (hc : Interner.constant c b' = .ok i b'') :
    b''.Grows (Interner.poolAfter (Interner.parts parts is) b) := by
  induction h with
  | first b part rest is =>
    have hafter := (Interner.extending_parts rest (is ++ [i])) b''
    unfold Interner.poolAfter at hafter ⊢
    rw [Interner.parts, bind_run_eq hc]
    exact hafter.grows
  | later hfirst _ ih =>
    have hafter := ih hc
    unfold Interner.poolAfter at hafter ⊢
    rwa [Interner.parts, bind_run_eq hfirst]

/-- **What stands in the pool afterwards** was there before, or it was assigned. -/
theorem of_get_poolAfter
    (h : (Interner.poolAfter (Interner.parts parts is) b).pool.get i = .ok c) :
    b.pool.get i = .ok c ∨
      ∃ b' b'', Asked b parts is c b' ∧ Interner.constant c b' = .ok i b'' := by
  induction parts generalizing is b with
  | nil => exact .inl h
  | cons part rest ih =>
    unfold Interner.poolAfter at h
    rw [Interner.parts] at h
    cases hfirst : Interner.constant (part is) b with
    | error e b₁ =>
      rw [bind_run_error hfirst] at h
      obtain ⟨rfl, -⟩ := Interner.constant_eq_error.1 hfirst
      exact .inl h
    | ok j b₁ =>
      rw [bind_run_eq hfirst] at h
      rcases ih h with hbefore | ⟨b', b'', hasked, hc⟩
      · rcases Interner.get_of_constant hfirst hbefore with hbefore | ⟨rfl, rfl⟩
        · exact .inl hbefore
        · exact .inr ⟨b, b₁, .first b part rest is, hfirst⟩
      · exact .inr ⟨b', b'', .later hfirst hasked, hc⟩

end Asked

/-! ## One request -/

namespace Request

/-- **A request asks for its parts in turn**, and returns the index of the last one. -/
theorem run_eq (r : Request) : r.run = (do
    let is ← Interner.parts r.parts []
    return is.getLastD 0) := by
  cases r <;>
    simp [run, parts, Interner.parts, Interner.utf8, Interner.integer, Interner.classRef,
      Interner.string, Interner.nameAndType, Interner.fieldRef, Interner.methodRef]

theorem poolAfter_run (r : Request) (b : PoolBuilder) :
    Interner.poolAfter r.run b = Interner.poolAfter (Interner.parts r.parts []) b := by
  unfold Interner.poolAfter
  rw [run_eq]
  cases hparts : Interner.parts r.parts [] b with
  | ok is b' => rw [bind_run_eq hparts]; rfl
  | error e b' => rw [bind_run_error hparts]

theorem extending_run (r : Request) : Interner.Extending r.run := fun b => by
  rw [poolAfter_run]
  exact Interner.extending_parts r.parts [] b

/-- **When a request fails**: it has asked for a constant that is new and does not fit. -/
theorem run_eq_error : r.run b = .error e b' ↔ ∃ c, Asked b r.parts [] c b' ∧
    b'.index[c]? = none ∧ PoolBuilder.limit < b'.count + c.width ∧
      e = .tooManyConstants (b'.count + c.width) := by
  have hparts : r.run b = .error e b' ↔ Interner.parts r.parts [] b = .error e b' := by
    rw [run_eq]
    cases hparts : Interner.parts r.parts [] b with
    | ok is b' =>
      rw [bind_run_eq hparts]
      exact ⟨nofun, nofun⟩
    | error e b' =>
      rw [bind_run_error hparts]
      exact ⟨fun heq => by cases heq; rfl, fun heq => by cases heq; rfl⟩
  rw [hparts, Interner.parts_eq_error]
  exact exists_congr fun c => and_congr_right fun _ =>
    Interner.constant_eq_error.trans (and_iff_right rfl)

/-- **A request that succeeded** returns the same index in every pool that grew from there. -/
theorem run_again (h : r.run b = .ok i b') (hgrows : b'.Grows b'') : r.run b'' = .ok i b'' := by
  rw [run_eq] at h ⊢
  obtain ⟨is, b₁, hparts, hresult⟩ := bind_run_ok.1 h
  cases hresult
  exact bind_run_ok.2 ⟨is, b'', Interner.parts_again hparts hgrows, rfl⟩

/-- **What is returned for a request** stands for it. -/
theorem resolves_of_run (h : r.run b = .ok i b') : r.Resolves b'.pool i := by
  cases r with
  | utf8 text => exact (Interner.utf8_ok h).2
  | integer value => exact (Interner.integer_ok h).2
  | classRef name => exact (Interner.classRef_ok h).2
  | string text => exact (Interner.string_ok h).2
  | nameAndType name descriptor => exact (Interner.nameAndType_ok h).2
  | fieldRef owner name descriptor =>
    obtain ⟨-, ownerIndex, member, hget, hresolve⟩ := Interner.fieldRef_ok h
    exact bind_eq_ok.2 ⟨_, hget, hresolve⟩
  | methodRef owner name descriptor inInterface =>
    obtain ⟨-, ownerIndex, member, hget, hresolve⟩ := Interner.methodRef_ok h
    refine bind_eq_ok.2 ⟨_, hget, ?_⟩
    cases inInterface <;> exact hresolve
  | add c => exact (Interner.constant_ok h).2

/-- A text that is asked for is one that the request names. -/
theorem mem_texts {text : String} (h : Asked b r.parts is (.utf8 text) b') : text ∈ r.texts := by
  obtain ⟨part, hmem, js, heq⟩ := h.exists_part
  cases r with
  | add c =>
    rw [List.mem_singleton.1 hmem] at heq
    cases heq
    exact List.mem_singleton_self text
  | methodRef owner name descriptor inInterface =>
    simp only [parts, List.mem_cons, List.not_mem_nil, or_false] at hmem
    rcases hmem with rfl | rfl | rfl | rfl | rfl | rfl
    on_goal 6 => cases inInterface
    all_goals
      cases heq
      try simp [texts]
  | _ =>
    simp only [parts, List.mem_cons, List.not_mem_nil, or_false] at hmem
    rcases hmem with rfl | rfl | rfl | rfl | rfl | rfl <;> cases heq <;> simp [texts]

end Request

/-! ## Requests in a row -/

/-- The pool behind requests, those that fail included. -/
def PoolBuilder.after (b : PoolBuilder) (rs : List Request) : PoolBuilder :=
  rs.foldl (fun b r => Interner.poolAfter r.run b) b

/-- **A constant was assigned an index** when requests were made on an empty pool, be it as a part
of one that failed. -/
def Assigned (rs : List Request) (c : Constant) (i : UInt16) : Prop :=
  ∃ front r back b b', rs = front ++ r :: back ∧
    Asked (PoolBuilder.empty.after front) r.parts [] c b ∧ Interner.constant c b = .ok i b'

namespace PoolBuilder

theorem after_append (b : PoolBuilder) (rs rs' : List Request) :
    b.after (rs ++ rs') = (b.after rs).after rs' :=
  List.foldl_append

theorem extends_after (b : PoolBuilder) (rs : List Request) : b.Extends (b.after rs) := by
  induction rs generalizing b with
  | nil => exact .refl b
  | cons r rs ih => exact (r.extending_run b).trans (ih _)

/-- What a request left in the pool is there after those behind it. -/
theorem grows_after (b : PoolBuilder) (front : List Request) (r : Request) (back : List Request) :
    (Interner.poolAfter r.run (b.after front)).Grows (b.after (front ++ r :: back)) := by
  rw [after_append]
  exact (extends_after _ back).grows

/-- **The pool holds what was assigned**, and nothing else. -/
theorem get_after_iff : (empty.after rs).pool.get i = .ok c ↔ Assigned rs c i := by
  constructor
  · intro h
    induction rs using List.reverseRecOn with
    | nil =>
      have hget := Pool.get_eq_ok.1 h
      rcases hi : i.toNat with - | n
      · rw [hi] at hget
        cases hget
      · rw [hi] at hget
        cases hget
    | append_singleton rs r ih =>
      rw [after_append] at h
      change (Interner.poolAfter r.run (empty.after rs)).pool.get i = .ok c at h
      rw [r.poolAfter_run] at h
      rcases Asked.of_get_poolAfter h with hbefore | ⟨b, b', hasked, hc⟩
      · obtain ⟨front, r', back, b, b', rfl, hasked, hc⟩ := ih hbefore
        exact ⟨front, r', back ++ [r], b, b', by simp, hasked, hc⟩
      · exact ⟨rs, r, [], b, b', rfl, hasked, hc⟩
  · rintro ⟨front, r, back, b, b', rfl, hasked, hc⟩
    have hafter := hasked.grows_poolAfter hc
    rw [← r.poolAfter_run] at hafter
    exact (hafter.trans (grows_after empty front r back)) i c (Interner.constant_ok hc).2

/-- The texts of the pool are those that requests named. -/
theorem textsFit_after (h : ∀ r ∈ rs, ∀ text ∈ r.texts,
    (ModifiedUtf8.encode text).length ≤ 65535) : (empty.after rs).pool.TextsFit := by
  intro text hmem
  obtain ⟨i, hget⟩ := exists_get hmem
  obtain ⟨front, r, back, b, b', rfl, hasked, -⟩ := get_after_iff.1 hget
  exact h r (List.mem_append_right _ List.mem_cons_self) text (Request.mem_texts hasked)

end PoolBuilder

/-! ## Slots -/

namespace Pool

variable {p : Pool} {cs : List Constant}

/-- Behind a wide constant there is an empty place. -/
theorem Lists.empty_behind (h : p.Lists cs) {k : Nat} (hk : p.entries[k]? = some (some c))
    (hwide : c.isWide) : p.entries[k + 1]? = some none := by
  obtain ⟨entries⟩ := p
  subst h
  dsimp only at hk ⊢
  induction cs using List.reverseRecOn with
  | nil =>
    rcases k with - | k <;> cases hk
  | append_singleton cs c' ih =>
    rw [List.foldl_append] at hk ⊢
    change (push (cs.foldl push #[none]) c')[k]? = _ at hk
    change (push (cs.foldl push #[none]) c')[k + 1]? = _
    rw [getElem?_push] at hk ⊢
    split at hk
    · rename_i hend
      cases hk
      rw [if_neg (by omega), if_pos ⟨by omega, hwide⟩]
    · split at hk
      · cases hk
      · have hbehind := ih hk
        have hlt := (Array.getElem?_eq_some_iff.1 hbehind).1
        rw [if_neg (by omega), if_neg (by omega), hbehind]

/-- **Constants at different indexes share no slot.** -/
theorem Lists.apart (h : p.Lists cs) (hi : p.get i = .ok c) (hj : p.get j = .ok c') (hne : i ≠ j) :
    i.toNat + c.width ≤ j.toNat ∨ j.toNat + c'.width ≤ i.toNat := by
  have hbehind : ∀ {i j : UInt16} {c c' : Constant}, p.get i = .ok c → p.get j = .ok c' →
      i.toNat < j.toNat → i.toNat + c.width ≤ j.toNat := by
    intro i j c c' hi hj hlt
    rw [Pool.get_eq_ok] at hi hj
    unfold Constant.width
    split
    · rename_i hwide
      have hempty := h.empty_behind hi hwide
      rcases Nat.lt_or_ge (i.toNat + 1) j.toNat with hfar | hnear
      · exact hfar
      · rw [show j.toNat = i.toNat + 1 by omega, hempty] at hj
        cases hj
    · exact hlt
  rcases Nat.lt_trichotomy i.toNat j.toNat with hlt | heq | hlt
  · exact .inl (hbehind hi hj hlt)
  · exact absurd (UInt16.toNat.inj heq) hne
  · exact .inr (hbehind hj hi hlt)

end Pool

/-! ## Built and read -/

open PoolBuilder in
/-- **The pool that is built and the pool that is read agree.** After any requests, failing ones
included: an index that was returned is returned ever after; a request fails exactly if a constant
that it asks for is new and does not fit; and the bytes of the pool are read to the last one as a
pool that holds what was assigned at its index and nothing else, where no two constants share a
slot and what was returned stands for its request. -/
theorem requests_agree (rs : List Request)
    (htexts : ∀ r ∈ rs, ∀ text ∈ r.texts, (ModifiedUtf8.encode text).length ≤ 65535) :
    (∀ (front : List Request) (r : Request) (back : List Request) (i : UInt16) (b : PoolBuilder),
      rs = front ++ r :: back → r.run (empty.after front) = .ok i b →
        r.run (empty.after rs) = .ok i (empty.after rs)) ∧
    (∀ (r : Request) (e : EmissionError) (b : PoolBuilder),
      r.run (empty.after rs) = .error e b ↔ ∃ c, Asked (empty.after rs) r.parts [] c b ∧
        b.index[c]? = none ∧ 65535 < b.count + c.width ∧
        e = .tooManyConstants (b.count + c.width)) ∧
    (empty.after rs).count ≤ 65535 ∧
    ∃ p : Pool,
      (∀ rest, Pool.decode ⟨0, (empty.after rs).pool.encode ++ rest⟩ =
        .ok p ⟨(empty.after rs).pool.encode.length, rest⟩) ∧
      p.count = (empty.after rs).count ∧ (∀ c i, p.get i = .ok c ↔ Assigned rs c i) ∧
      (∀ c i j, Assigned rs c i → Assigned rs c j → i = j) ∧
      (∀ c c' i j, Assigned rs c i → Assigned rs c' j → c ≠ c' →
        i.toNat + c.width ≤ j.toNat ∨ j.toNat + c'.width ≤ i.toNat) ∧
      (∀ (front : List Request) (r : Request) (back : List Request) (i : UInt16) (b : PoolBuilder),
        rs = front ++ r :: back → r.run (empty.after front) = .ok i b → r.Resolves p i) := by
  obtain ⟨cs, hlists⟩ := lists_of_extends (extends_after empty rs)
  have hkept : ∀ (front : List Request) (r : Request) (back : List Request) (i : UInt16)
      (b : PoolBuilder), rs = front ++ r :: back → r.run (empty.after front) = .ok i b →
        r.run (empty.after rs) = .ok i (empty.after rs) := by
    rintro front r back i b rfl hrun
    have hgrows := grows_after empty front r back
    unfold Interner.poolAfter at hgrows
    rw [hrun] at hgrows
    exact Request.run_again hrun hgrows
  refine ⟨hkept, fun r e b => Request.run_eq_error, (empty.after rs).size_le,
    (empty.after rs).pool, fun rest => ?_, rfl, fun c i => get_after_iff, fun c i j hi hj => ?_,
    fun c c' i j hi hj hne => ?_, fun front r back i b heq hrun => ?_⟩
  · have hfits := (textsFit_after htexts).fits hlists
    exact (Pool.reads hlists (empty.after rs).size_le hfits rest).trans (by rw [Nat.zero_add])
  · have hindex := ((empty.after rs).index_iff c i).2 (Pool.get_eq_ok.1 (get_after_iff.2 hi))
    have hindex' := ((empty.after rs).index_iff c j).2 (Pool.get_eq_ok.1 (get_after_iff.2 hj))
    exact Option.some.inj (hindex.symm.trans hindex')
  · have hget := get_after_iff.2 hi
    refine hlists.apart hget (get_after_iff.2 hj) fun heq => hne ?_
    exact Except.ok.inj (hget.symm.trans (heq ▸ get_after_iff.2 hj))
  · exact Request.resolves_of_run (hkept front r back i b heq hrun)

/-- A class, a constant that takes two indexes, and a method of the class. -/
def Request.around : List Request :=
  [.classRef "A", .add (.long 5), .methodRef "A" "m" "()V" false]

open PoolBuilder in
/-- The pool around the wide constant is read back, with what was assigned. -/
theorem requests_agree_around :
    (∀ r ∈ Request.around, ∀ text ∈ r.texts, (ModifiedUtf8.encode text).length ≤ 65535) ∧
    ∃ p : Pool,
      (∀ rest, Pool.decode ⟨0, (empty.after Request.around).pool.encode ++ rest⟩ =
        .ok p ⟨(empty.after Request.around).pool.encode.length, rest⟩) ∧
      ∀ c i, p.get i = .ok c ↔ Assigned Request.around c i := by
  have htexts : ∀ r ∈ Request.around, ∀ text ∈ r.texts,
      (ModifiedUtf8.encode text).length ≤ 65535 := by decide +kernel
  obtain ⟨-, -, -, p, hread, -, hassigned, -⟩ := requests_agree Request.around htexts
  exact ⟨htexts, p, hread, hassigned⟩

end ProxyForge
