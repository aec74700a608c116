import ProxyForge.Proofs.Descriptor
import ProxyForge.Proofs.Inference.Completeness
/-!
# The names of known classes

Where all names in a method are short, so are those of the classes that are known in it
(`LaidOut.short_knownAt`): no instruction makes a long name of short ones, and what is known is
least, so no name is known that was not there.
-/

namespace ProxyForge

namespace Code

open SlotType (top)
open Outcome

variable {n : Nat} {v w : SlotType} {s t r : TypeState} {m : MethodHeader} {e : TypeState}
  {body : Body} {p : Program} {l : Layout}

/-! ## Values -/

namespace SlotType

/-- **A value with a short name**, or with none. -/
def Short (n : Nat) : SlotType → Prop
  | object name | uninitialized _ name => name.length ≤ n
  | _ => True

theorem short_ofType {type : JvmType} (h : ofType type = some v)
    (hn : type.descriptorChars.length ≤ n) : v.Short n := by
  unfold ofType at h
  split at h <;> cases h
  case h_6 name =>
    change (Name.toInternal name).length ≤ n
    rw [JvmType.descriptorChars, List.length_append, List.length_cons, String.length_toList] at hn
    omega
  case h_7 element =>
    change ((JvmType.array element).descriptor).length ≤ n
    rwa [JvmType.descriptor, String.length_ofList]
  all_goals exact trivial

/-- The value without a name that is too long. -/
def shorten (n : Nat) : SlotType → SlotType
  | object name => if name.length ≤ n then object name else null
  | v => v

theorem shorten_object (n : Nat) (name : String) :
    (object name).shorten n = if name.length ≤ n then object name else null :=
  rfl

theorem shorten_le (n : Nat) (v : SlotType) : v.shorten n ≤ v := by
  cases v with
  | object name =>
    rw [shorten_object]
    split
    · exact le_refl _
    · exact Below.null name
  | _ => exact Below.refl _

/-- What is below a value and has a short name is below the shortened one. -/
theorem le_shorten (hroot : objectClass.length ≤ n) (h : v ≤ w) (hv : v.Short n) :
    v ≤ w.shorten n := by
  have hbelow : Below v w := h
  cases hbelow with
  | refl =>
    cases v with
    | object name =>
      rw [shorten_object, if_pos (show name.length ≤ n from hv)]
    | _ => exact Below.refl _
  | top => exact Below.top v
  | null name =>
    rw [shorten_object]
    split
    · exact Below.null name
    · exact le_refl _
  | root name =>
    rw [shorten_object, if_pos hroot]
    exact Below.root name

theorem isWide_shorten (n : Nat) (v : SlotType) : (v.shorten n).isWide = v.isWide := by
  cases v with
  | object name =>
    rw [shorten_object]
    split <;> rfl
  | _ => rfl

theorem eq_top_of_shorten (h : v.shorten n = top) : v = top := by
  cases v with
  | object name =>
    rw [shorten_object] at h
    split at h <;> cases h
  | _ => exact h

/-- A value that shortening does not lower has a short name, if a fresh one has. -/
theorem short_of_le_shorten (h : v ≤ v.shorten n)
    (hfresh : ∀ offset name, v = uninitialized offset name → name.length ≤ n) : v.Short n := by
  cases v with
  | object name =>
    rw [shorten_object] at h
    split at h
    · assumption
    · have hbelow : Below (object name) null := h
      cases hbelow
  | uninitialized offset name => exact hfresh offset name rfl
  | _ => exact trivial

end SlotType

/-! ## Instructions -/

/-- The texts that an instruction names. -/
def Op.texts {L : Type} : Op L → List String
  | .string text => [text]
  | .classOf name | .new name | .newArray name | .cast name => [name]
  | .getStatic f | .putStatic f | .getField f | .putField f => [f.owner, f.name, f.descriptor]
  | .invoke _ method => [method.owner, method.name, method.descriptor]
  | _ => []

/-- **An instruction with short names**: short enough for those of arrays. -/
def Op.Short {L : Type} (n : Nat) (op : Op L) : Prop :=
  ∀ text ∈ op.texts, text.length + 3 ≤ n

namespace TypeState

/-- **A state in which all names are short.** -/
def Short (n : Nat) (s : TypeState) : Prop :=
  ∀ v, s.Holds v → v.Short n

namespace Short

theorem push (h : s.Short n) (hv : v.Short n) : (s.push v).Short n := by
  intro w hw
  rcases hw with hw | hw
  · exact h w (.inl hw)
  · rcases List.mem_cons.1 hw with rfl | hw
    · exact hv
    · exact h w (.inr hw)

/-- What lies below the top of the stack. -/
theorem of_append {dropped : List SlotType} (h : s.Short n)
    (hs : s = ⟨r.locals, dropped ++ r.stack⟩) : r.Short n := by
  intro w hw
  refine h w ?_
  rw [hs]
  exact hw.imp_right fun hw => List.mem_append_right _ hw

theorem of_cons (h : s.Short n) (hs : s = ⟨r.locals, v :: r.stack⟩) : v.Short n ∧ r.Short n := by
  have hdropped : s = ⟨r.locals, [v] ++ r.stack⟩ := hs
  refine ⟨h v ?_, h.of_append hdropped⟩
  rw [hs]
  exact .inr List.mem_cons_self

theorem dropKind {kind : Kind} (h : s.Short n) (hdrop : s.dropKind kind = .ok r) : r.Short n := by
  obtain ⟨v, hs, -⟩ := dropKind_eq_ok.1 hdrop
  exact (h.of_cons hs).2

theorem replace {old new : SlotType} (h : s.Short n) (hnew : new.Short n) :
    (s.replace old new).Short n := by
  have hswap : ∀ ts : List SlotType, (∀ w ∈ ts, w.Short n) →
      ∀ w ∈ ts.map (fun t => if t = old then new else t), w.Short n := by
    intro ts hts w hw
    obtain ⟨x, hx, rfl⟩ := List.mem_map.1 hw
    split
    · exact hnew
    · exact hts x hx
  intro w hw
  rcases hw with hw | hw
  · exact hswap _ (fun x hx => h x (.inl hx)) w hw
  · exact hswap _ (fun x hx => h x (.inr hx)) w hw

theorem elementOf (h : v.Short n) (helement : TypeState.elementOf v = .ok w) : w.Short n := by
  cases v with
  | null =>
    cases helement
    exact trivial
  | object name =>
    have hname : name.toList.length ≤ n := by rwa [String.length_toList]
    simp only [TypeState.elementOf] at helement
    split at helement
    · rename_i rest hchars
      cases helement
      change (String.ofList ('[' :: rest)).length ≤ n
      rw [hchars] at hname
      rw [String.length_ofList]
      exact Nat.le_of_succ_le hname
    · rename_i rest hchars
      split at helement
      · rename_i reversed hreversed
        cases helement
        change (String.ofList reversed.reverse).length ≤ n
        have hlen := congrArg List.length hreversed
        rw [hchars] at hname
        rw [String.length_ofList, List.length_reverse]
        simp only [List.length_reverse, List.length_cons] at hlen hname
        omega
      · cases helement
    · cases helement
    · cases helement
  | _ => cases helement

theorem call {call : CallKind} {method : MethodRef} (hthis : m.thisClass.length ≤ n)
    (h : s.Short n) (hdescriptor : method.descriptor.length ≤ n)
    (hcall : s.call m call method = .ok t) : t.Short n := by
  unfold TypeState.call at hcall
  split at hcall
  · cases hcall
  · rename_i params result hparse
    obtain ⟨q, hq, hrest⟩ := bind_eq_ok.1 hcall
    obtain ⟨r, hr, hresult⟩ := bind_eq_ok.1 hrest
    obtain ⟨dropped, hs⟩ := dropArguments_eq_ok hq
    have hqshort := h.of_append hs
    have hrshort : r.Short n := by
      unfold dropReceiver at hr
      split at hr
      · cases hr
        exact hqshort
      · obtain ⟨⟨v, q'⟩, hpop, hlast⟩ := bind_eq_ok.1 hr
        obtain ⟨hv, hq'⟩ := hqshort.of_cons (popFitting_eq_ok.1 hpop).1
        dsimp only at hlast
        split at hlast
        · obtain ⟨new, hnew, hdone⟩ := bind_eq_ok.1 hlast
          cases hdone
          refine hq'.replace ?_
          cases v <;> cases hnew
          · exact hthis
          · exact hv
        · cases hlast
          exact hq'
    split at hresult
    · rename_i v hv
      cases hresult
      refine hrshort.push (SlotType.short_ofType hv ?_)
      have hlen := JvmType.length_ofMethodDescriptor hparse
      rw [JvmType.methodDescriptorChars, List.length_append, List.length_cons, List.length_cons,
        String.length_toList] at hlen
      omega
    · cases hresult
      exact hrshort

theorem fieldValue {field : FieldRef} (hdescriptor : field.descriptor.length ≤ n)
    (h : TypeState.fieldValue field = .ok v) : v.Short n := by
  unfold TypeState.fieldValue at h
  split at h
  · cases h
  · rename_i type htype
    split at h
    · rename_i hvalue
      cases h
      refine SlotType.short_ofType hvalue ?_
      rw [JvmType.length_ofDescriptorChars htype, String.length_toList]
      exact hdescriptor
    · cases h

/-- **No instruction makes a long name** of short ones. -/
theorem step {L : Type} {op : Op L} {offset : Nat} (hn : throwableClass.length ≤ n)
    (hthis : m.thisClass.length ≤ n) (h : s.Short n) (hop : op.Short n)
    (hstep : s.step m offset op = .ok t) : t.Short n := by
  have hroom : ∀ text ∈ op.texts, text.length ≤ n := fun text ht =>
    Nat.le_of_add_right_le (hop text ht)
  have hclass : ∀ name : String, name.length ≤ throwableClass.length →
      (SlotType.object name).Short n := fun name hle => hle.trans hn
  cases op with
  | null | int _ =>
    cases hstep
    exact h.push trivial
  | string _ | classOf _ =>
    cases hstep
    exact h.push (hclass _ (by decide))
  | new name =>
    cases hstep
    exact h.push (hroom name List.mem_cons_self)
  | load kind index =>
    simp only [TypeState.step] at hstep
    split at hstep
    · cases hstep
    · rename_i v hlocal
      split at hstep
      · cases hstep
        exact h.push (h v (.inl (List.mem_of_getElem? hlocal)))
      · cases hstep
  | store kind index =>
    obtain ⟨⟨v, r⟩, hpop, hresult⟩ := bind_eq_ok.1 hstep
    obtain ⟨hv, hr⟩ := h.of_cons (popFitting_eq_ok.1 hpop).1
    cases hresult
    intro w hw
    rcases hw with hw | hw
    · by_cases htop : w = top
      · rw [htop]
        exact trivial
      · rcases mem_storeLocal htop hw with rfl | hw
        · exact hv
        · exact hr w (.inl hw)
    · exact hr w (.inr hw)
  | arrayLoad =>
    obtain ⟨r, hr, hrest⟩ := bind_eq_ok.1 hstep
    obtain ⟨⟨array, q⟩, hq, hlast⟩ := bind_eq_ok.1 hrest
    obtain ⟨v, hv, hresult⟩ := bind_eq_ok.1 hlast
    obtain ⟨harray, hq'⟩ := (h.dropKind hr).of_cons (popFitting_eq_ok.1 hq).1
    cases hresult
    exact hq'.push (Short.elementOf harray hv)
  | arrayStore =>
    obtain ⟨r, hr, hrest⟩ := bind_eq_ok.1 hstep
    obtain ⟨q, hq, hlast⟩ := bind_eq_ok.1 hrest
    exact ((h.dropKind hr).dropKind hq).dropKind hlast
  | pop =>
    obtain ⟨⟨v, r⟩, hpop, hresult⟩ := bind_eq_ok.1 hstep
    have hr := (h.of_cons (pop_eq_ok.1 hpop)).2
    dsimp only at hresult
    split at hresult
    · cases hresult
    · cases hresult
      exact hr
  | dup =>
    simp only [TypeState.step] at hstep
    split at hstep
    · cases hstep
    · rename_i v rest hs
      split at hstep
      · cases hstep
      · cases hstep
        exact h.push (h v (.inr (hs ▸ List.mem_cons_self)))
  | ret kind =>
    cases kind with
    | none =>
      cases hstep
      exact h
    | some kind => exact h.dropKind hstep
  | getStatic field =>
    obtain ⟨v, hv, hresult⟩ := bind_eq_ok.1 hstep
    cases hresult
    exact h.push (fieldValue (hroom field.descriptor (by simp [Op.texts])) hv)
  | putStatic field =>
    obtain ⟨⟨v, r⟩, hpop, hresult⟩ := bind_eq_ok.1 hstep
    cases hresult
    exact (h.of_cons (pop_eq_ok.1 hpop)).2
  | getField field =>
    obtain ⟨r, hr, hrest⟩ := bind_eq_ok.1 hstep
    obtain ⟨v, hv, hresult⟩ := bind_eq_ok.1 hrest
    cases hresult
    exact (h.dropKind hr).push (fieldValue (hroom field.descriptor (by simp [Op.texts])) hv)
  | putField field =>
    obtain ⟨⟨v, r⟩, hpop, hrest⟩ := bind_eq_ok.1 hstep
    exact (h.of_cons (pop_eq_ok.1 hpop)).2.dropKind hrest
  | invoke kind method =>
    exact h.call hthis (hroom method.descriptor (by simp [Op.texts])) hstep
  | newArray element =>
    obtain ⟨r, hr, hresult⟩ := bind_eq_ok.1 hstep
    cases hresult
    refine (h.dropKind hr).push ?_
    have hlong := hop element List.mem_cons_self
    unfold arrayOf
    split
    · change ("[" ++ element).length ≤ n
      rw [String.length_append]
      change 1 + _ ≤ n
      omega
    · change ("[L" ++ element ++ ";").length ≤ n
      rw [String.length_append, String.length_append]
      change 2 + _ + 1 ≤ n
      omega
  | cast name =>
    obtain ⟨r, hr, hresult⟩ := bind_eq_ok.1 hstep
    cases hresult
    exact (h.dropKind hr).push (hroom name List.mem_cons_self)
  | throw | monitorEnter | monitorExit | lookupSwitch _ _ => exact h.dropKind hstep
  | jump kind target =>
    cases kind with
    | always =>
      cases hstep
      exact h
    | ifNull | ifNonNull => exact h.dropKind hstep

end Short

/-- **A method with a short descriptor starts with short names.** -/
theorem short_entry (hthis : m.thisClass.length ≤ n) (hdescriptor : m.descriptor.length ≤ n)
    (h : entry m = .ok e) : e.Short n := by
  unfold entry at h
  split at h
  · cases h
  · rename_i params result hparse
    cases h
    have hchars := JvmType.length_ofMethodDescriptor hparse
    rw [JvmType.methodDescriptorChars, String.length_toList, List.length_append,
      List.length_cons] at hchars
    have hparam : ∀ type ∈ params, type.descriptorChars.length ≤ n := fun type htype => by
      have hpart := (List.sublist_flatten_of_mem
        (List.mem_map_of_mem (f := JvmType.descriptorChars) htype)).length_le
      rw [← List.flatMap_def] at hpart
      omega
    intro v hv
    rcases hv with hv | hv
    · rcases List.mem_append.1 hv with hv | hv
      · unfold receiver at hv
        split at hv
        · cases hv
        · split at hv <;> rw [List.mem_singleton.1 hv]
          · exact trivial
          · exact hthis
      · obtain ⟨type, htype, hslot⟩ := List.mem_flatMap.1 hv
        unfold parameterSlots at hslot
        split at hslot
        · rename_i slot hof
          have hshort := SlotType.short_ofType hof (hparam type htype)
          unfold SlotType.expand at hslot
          split at hslot
          · rcases List.mem_cons.1 hslot with rfl | hslot
            · exact hshort
            · rw [List.mem_singleton.1 hslot]
              exact trivial
          · rwa [List.mem_singleton.1 hslot]
        · cases hslot
    · cases hv

/-! ## Shortened states -/

/-- The state without names that are too long. -/
def shorten (n : Nat) (s : TypeState) : TypeState :=
  ⟨s.locals.map (SlotType.shorten n), s.stack.map (SlotType.shorten n)⟩

theorem slotAt_shorten (n : Nat) (s : TypeState) (i : Nat) :
    slotAt (s.shorten n).locals i = (slotAt s.locals i).shorten n := by
  unfold TypeState.slotAt shorten
  rw [List.getD_eq_getElem?_getD, List.getD_eq_getElem?_getD, List.getElem?_map]
  cases s.locals[i]? <;> rfl

theorem Short.slotAt (h : s.Short n) (i : Nat) : (slotAt s.locals i).Short n := by
  by_cases htop : TypeState.slotAt s.locals i = top
  · rw [htop]
    exact trivial
  · exact h _ (.inl (mem_of_slotAt rfl htop))

theorem shorten_le (n : Nat) (s : TypeState) : s.shorten n ≤ s where
  locals i := by
    rw [slotAt_shorten]
    exact SlotType.shorten_le n _
  stack := by
    change List.Forall₂ (· ≤ ·) (s.stack.map (SlotType.shorten n)) s.stack
    rw [List.forall₂_map_left_iff]
    exact List.forall₂_same.2 fun v _ => SlotType.shorten_le n v

theorem le_shorten (hroot : objectClass.length ≤ n) (h : t ≤ s) (ht : t.Short n) :
    t ≤ s.shorten n where
  locals i := by
    rw [slotAt_shorten]
    exact SlotType.le_shorten hroot (h.locals i) (ht.slotAt i)
  stack := by
    change List.Forall₂ (· ≤ ·) t.stack (s.stack.map (SlotType.shorten n))
    rw [List.forall₂_map_right_iff]
    exact forall₂_imp_of_mem h.stack fun v hv w _ hle =>
      SlotType.le_shorten hroot hle (ht v (.inr hv))

/-- A state that shortening does not lower has short names, if its fresh objects have. -/
theorem short_of_le_shorten (h : s ≤ s.shorten n)
    (hfresh : ∀ offset name, s.Holds (.uninitialized offset name) → name.length ≤ n) :
    s.Short n := by
  intro v hv
  refine SlotType.short_of_le_shorten ?_ fun offset name heq => hfresh offset name (heq ▸ hv)
  rcases hv with hv | hv
  · obtain ⟨i, rfl⟩ := exists_slotAt hv
    rw [← slotAt_shorten]
    exact h.locals i
  · have hstack : List.Forall₂ (· ≤ ·) s.stack (s.stack.map (SlotType.shorten n)) := h.stack
    rw [List.forall₂_map_right_iff] at hstack
    exact List.forall₂_same.1 hstack v hv

theorem short_shorten (hfresh : ∀ offset name, s.Holds (.uninitialized offset name) →
    name.length ≤ n) : (s.shorten n).Short n := by
  have hone : ∀ v, s.Holds v → (v.shorten n).Short n := by
    intro v hv
    cases v with
    | object name =>
      rw [SlotType.shorten_object]
      split
      · assumption
      · exact trivial
    | uninitialized offset name => exact hfresh offset name hv
    | _ => exact trivial
  intro v hv
  rcases hv with hv | hv
  · obtain ⟨w, hw, rfl⟩ := List.mem_map.1 hv
    exact hone w (.inl hw)
  · obtain ⟨w, hw, rfl⟩ := List.mem_map.1 hv
    exact hone w (.inr hw)

theorem Paired.shorten (h : s.Paired) (n : Nat) : (s.shorten n).Paired where
  locals i hwide := by
    have hwide' : isWideAt s.locals i := by
      rw [isWideAt_eq, slotAt_shorten] at hwide
      rw [isWideAt_eq]
      exact SlotType.isWide_shorten n _ ▸ hwide
    change (s.locals.map (SlotType.shorten n))[i + 1]? = some top
    rw [List.getElem?_map, h.locals i hwide']
    rfl
  stack hmem := by
    obtain ⟨v, hv, htop⟩ := List.mem_map.1 hmem
    exact h.stack (SlotType.eq_top_of_shorten htop ▸ hv)

end TypeState

namespace Context

variable {c : Context} {entry : TypeState} {known : Nat → TypeState}

/-- **A method with short names**: those of its class, its instructions, its handlers and its
start. -/
structure Short (n : Nat) (c : Context) (entry : TypeState) : Prop where
  room : throwableClass.length ≤ n
  thisClass : c.shape.thisClass.length ≤ n
  ops : ∀ (i : Nat) (op : Op Nat), c.ops[i]? = some op → op.Short n
  caught : ∀ g ∈ c.guards, g.caught.Short n
  entry : entry.Short n

/-- Fresh objects have short names if instructions have. -/
theorem Short.fresh (h : Short n c entry) (hmade : s.Made c) (offset : Nat) (name : String)
    (hholds : s.Holds (.uninitialized offset name)) : name.length ≤ n := by
  obtain ⟨i, hop, -⟩ := hmade offset name hholds
  exact Nat.le_of_add_right_le (h.ops i _ hop name List.mem_cons_self)

theorem Arrives.short (h : Short n c entry) {i j : Nat} {after : TypeState} (hs : s.Short n)
    (hafter : after.Short n) (harrives : c.Arrives i s after j t) : t.Short n := by
  have hcaught : ∀ {u : TypeState} {g : Guard}, u.Short n → g ∈ c.guards →
      (⟨u.locals, [g.caught]⟩ : TypeState).Short n := by
    intro u g hu hg v hv
    rcases hv with hv | hv
    · exact hu v (.inl hv)
    · rw [List.mem_singleton.1 hv]
      exact h.caught g hg
  cases harrives with
  | jump => exact hafter
  | next => exact hafter
  | raisedBefore hg => exact hcaught hs hg
  | raisedAfter hg => exact hcaught hafter hg

/-- **A typing without long names** is one if the method has none. -/
theorem Typing.shorten (hk : c.Typing entry known) (h : Short n c entry)
    (hpaired : ∀ i < c.ops.size, (known i).Paired) (hmade : ∀ i < c.ops.size, (known i).Made c) :
    c.Typing entry fun i => (known i).shorten n where
  entry_le := TypeState.le_shorten ((by decide : objectClass.length ≤ throwableClass.length).trans
    h.room) hk.entry_le h.entry
  step i op hop := by
    have hi : i < c.ops.size := (Array.getElem?_eq_some_iff.1 hop).1
    obtain ⟨after, hstep, hall⟩ := hk.step i op hop
    have hshort := TypeState.short_shorten (h.fresh (hmade i hi))
    obtain ⟨after', hstep', hle⟩ := TypeState.step_mono (TypeState.shorten_le n _)
      ((hpaired i hi).shorten n) (hk.stack i hi) hstep
    have hafter := hshort.step h.room h.thisClass (h.ops i op hop) hstep'
    refine ⟨after', hstep', fun j t ht hj => ?_⟩
    obtain ⟨t', ht', hle'⟩ := ht.mono (TypeState.shorten_le n _) hle
    exact TypeState.le_shorten ((by decide : objectClass.length ≤ throwableClass.length).trans
      h.room) (hle'.trans (hall j t' ht' hj)) (ht.short h hshort hafter)
  stack i hi := ((hpaired i hi).shorten n).stack
  wide i hi k hwide := by
    have hwide' : (TypeState.slotAt ((known i).shorten n).locals k).isWide := hwide
    exact ((hpaired i hi).shorten n).slotAt_succ hwide'

end Context

/-- **Known classes have short names** in a method with short names. -/
theorem LaidOut.short_knownAt {s : Search} (hl : LaidOut m body p l)
    (he : TypeState.entry m = .ok e) (hsize : 0 < p.ops.size)
    (hs : Search.infer (p.context m l.offsets) e = .ok s)
    (h : Context.Short n (p.context m l.offsets) e) {i : Nat} (hi : i < p.ops.size) :
    (s.knownAt i).Short n := by
  have hinferred := hl.inferred_max he hsize hs
  have hmade : ∀ i < p.ops.size, (s.knownAt i).Made (p.context m l.offsets) := fun i hi =>
    hinferred.typing.made hl.valid hinferred.staysInside hsize (TypeState.made_entry _ he)
      (hinferred.reachable hi)
  have hshort := hinferred.typing.shorten h (fun i hi => (hinferred.admits hi).paired) hmade
  obtain ⟨s', hs', hbelow⟩ := hl.infer_of_typing he hsize hshort hinferred.staysInside
    fun i hi => hinferred.reachable hi
  cases hs.symm.trans hs'
  exact TypeState.short_of_le_shorten (hbelow i hi) (h.fresh (hmade i hi))

end Code

end ProxyForge
