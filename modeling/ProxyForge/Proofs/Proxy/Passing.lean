import ProxyForge.Proofs.Proxy.Intact
/-!
# How many slots a call of a generated method takes

A call passes no more than 255 slots, its receiver included, and `ClassFile.argumentSlots` counts
those of a method. A generated class takes over the parameters of its contracts. To those of its
superclass's constructor it adds one for the interceptor, and nothing counts them again: every
method can be called exactly if they take no more than 253 slots (`generate_passable_iff`).
-/

namespace ProxyForge

open Outcome

/-! ## Counting -/

/-- The slots that values take, counted in full. -/
def JvmType.slotCount (types : List JvmType) : Nat :=
  (types.map fun t => t.slots.toNat).sum

theorem JvmType.slotCount_cons (t : JvmType) (types : List JvmType) :
    slotCount (t :: types) = t.slots.toNat + slotCount types :=
  List.sum_cons

/-- The slots that a call takes: those of the receiver, unless there is none, and of the
parameters that a descriptor names. -/
def argumentSlots (access : UInt16) (descriptor : String) : Option Nat := do
  let (params, _) ← (JvmType.ofMethodDescriptor descriptor).toOption
  return (if Access.has access Access.isStatic then 0 else 1) + JvmType.slotCount params

/-- **The slots that a call of a method takes.** -/
def ClassFile.argumentSlots (c : ClassFile) (member : Member) : Option Nat := do
  ProxyForge.argumentSlots member.access (← (c.memberDescriptor member).toOption)

/-- **A method that can be called**: it takes no more slots than a call passes. -/
def ClassFile.Passable (c : ClassFile) (member : Member) : Prop :=
  ∃ n ≤ 255, c.argumentSlots member = some n

/-- **A surface of methods that can be called**: their types are written in source, and with a
receiver their parameters take no more slots than a call passes. -/
structure Surface.Passable (s : Surface) : Prop where
  params : ∀ c ∈ s.contracts, ∀ m ∈ c.methods, ∀ t ∈ m.signature.params, t.IsSourceValue
  result : ∀ c ∈ s.contracts, ∀ m ∈ c.methods, m.signature.result.IsSource
  slots : ∀ c ∈ s.contracts, ∀ m ∈ c.methods, JvmType.slotCount m.signature.params ≤ 254

variable {access : UInt16} {descriptor : String} {params : List JvmType} {result : JvmType}

theorem argumentSlots_of_parse
    (h : JvmType.ofMethodDescriptor descriptor = .ok (params, result)) :
    argumentSlots access descriptor =
      some ((if Access.has access Access.isStatic then 0 else 1) + JvmType.slotCount params) := by
  unfold argumentSlots
  rw [h]
  rfl

namespace Proxy

variable {g : Generator} {blueprint : Blueprint} {a : Artifact} {o : Outline} {s : Surface}
  {plan : Plan} {hash : String → Int32} {p : Planned}

/-! ## Members -/

/-- A member whose types can be read, and which can be called. -/
structure Planned.Passable (p : Planned) : Prop where
  params : ∀ t ∈ p.signature.params, t.isReadableValue
  result : p.signature.result.isReadable
  slots : JvmType.slotCount p.signature.params ≤ 254

theorem passable_of_universal (h : p.signature ∈ Plan.universalSignatures) : p.Passable := by
  have hslots : ∀ signature ∈ Plan.universalSignatures,
      JvmType.slotCount signature.params ≤ 254 := by
    decide +kernel
  have htyped := typed_of_universal h
  exact ⟨htyped.params, htyped.result, hslots _ h⟩

/-- **Members take over the parameters of their methods.** -/
theorem passable_of_mem (hs : s.Passable) (h : Plan.ofSurface hash s = .ok plan)
    (hp : p ∈ plan.members) : p.Passable := by
  cases Plan.stems_of_mem h hp with
  | universal _ hsignature => exact passable_of_universal hsignature
  | listed c m hc hm hsignature _ =>
    refine ⟨fun t ht => ?_, ?_, ?_⟩ <;> rw [hsignature] at *
    · exact (hs.params c hc m hm t ht).isReadableValue
    · exact (hs.result c hc m hm).isReadable
    · exact hs.slots c hc m hm

/-! ## Methods -/

namespace Contents

/-- **The slots of the methods that a plan asks for**, the receiver included. -/
def slots (baseParams : List JvmType) (members : List Planned) : List Nat :=
  [0, 2 + JvmType.slotCount baseParams] ++
  members.map (fun m => 1 + JvmType.slotCount m.signature.params) ++ [4] ++
  (interfaceSlots members).map fun _ => 3

/-- **What the methods of a plan take**, by their access and their descriptors. -/
theorem map_argumentSlots (hb : o.bindings.WellNamed)
    (hbase : ∀ t ∈ o.baseParams, t.isReadableValue)
    (hmembers : ∀ p ∈ o.plan.members, p.Passable) :
    (methods o.bindings o.baseParams o.plan.members).map
        (fun m => argumentSlots m.1 m.2.2.1) =
      (slots o.baseParams o.plan.members).map some := by
  have hinitializer : argumentSlots Access.isStatic "()V" = some 0 :=
    argumentSlots_of_parse (Initializer.parse_classInitializer o)
  have hconstructor : argumentSlots Access.isPublic (Initializer.constructor o).descriptor =
      some (2 + JvmType.slotCount o.baseParams) := by
    rw [argumentSlots_of_parse (Initializer.parse_constructor hb hbase),
      Initializer.constructorParams, JvmType.slotCount_cons, ← Nat.add_assoc]
    rfl
  have hdispatch : argumentSlots (Access.isPublic ||| Access.isFinal) o.bindings.callDescriptor =
      some 4 :=
    argumentSlots_of_parse hb.callDescriptor
  have hhelper : argumentSlots (Access.isPrivate ||| Access.isFinal)
      Dispatcher.helperDescriptor = some 3 :=
    argumentSlots_of_parse Dispatcher.parse_helperDescriptor
  have hforwarder : ∀ p ∈ o.plan.members, argumentSlots (Access.isPublic ||| Access.isFinal)
      p.signature.descriptor = some (1 + JvmType.slotCount p.signature.params) := fun p hp =>
    argumentSlots_of_parse
      (Forwarder.parse_method o (hmembers p hp).params (hmembers p hp).result)
  unfold methods slots
  simp only [List.map_append, List.map_map, List.map_cons, List.map_nil]
  refine congrArg₂ (· ++ ·) (congrArg₂ (· ++ ·) (congrArg₂ (· ++ ·) ?_ ?_) ?_) ?_
  · exact congrArg₂ (fun x y => [x, y]) hinitializer hconstructor
  · exact List.map_congr_left hforwarder
  · exact congrArg ([·]) hdispatch
  · exact List.map_congr_left fun _ _ => hhelper

/-- Each of them but the constructor takes no more than a call passes. -/
theorem slots_le {baseParams : List JvmType} {members : List Planned}
    (hmembers : ∀ p ∈ members, p.Passable) {i n : Nat}
    (h : (slots baseParams members)[i]? = some n) (hi : i ≠ 1) : n ≤ 255 := by
  rw [slots, List.append_assoc, List.append_assoc] at h
  match i, hi with
  | 0, _ =>
    cases h
    exact Nat.zero_le _
  | i + 2, _ =>
    have hmem : n ∈ members.map (fun m => 1 + JvmType.slotCount m.signature.params) ++
        ([4] ++ (interfaceSlots members).map fun _ => 3) := List.mem_of_getElem? h
    simp only [List.mem_append, List.mem_map, List.mem_singleton] at hmem
    rcases hmem with ⟨p, hp, rfl⟩ | rfl | ⟨_, -, rfl⟩
    · have := (hmembers p hp).slots
      omega
    · decide
    · decide

end Contents

/-! ## The class file -/

/-- **The methods of a class file take what the plan asks for.** -/
theorem Outline.map_argumentSlots {access : UInt16} {interfaces : List String} {file : ClassFile}
    {b : PoolBuilder} (h : o.classFile access interfaces .empty = .ok file b)
    (hplaced : Contents.Placed o.plan.members) :
    file.methods.map file.argumentSlots =
      (Contents.methods o.bindings o.baseParams o.plan.members).map
        fun m => ProxyForge.argumentSlots m.1 m.2.2.1 := by
  obtain ⟨s, -, -, -, -, -, hpool, hparts⟩ := exists_parts h
  rw [← map_methods hplaced, List.map_map, eq_comm, ← List.forall₂_eq_eq_eq,
    List.forall₂_map_left_iff, List.forall₂_map_right_iff]
  refine hparts.imp fun m member ⟨_, _, hmade, hgrows⟩ => ?_
  obtain ⟨haccess, -, hdescriptor⟩ := hmade.named hgrows hpool
  unfold ClassFile.argumentSlots
  rw [hdescriptor, haccess]
  rfl

/-- **Which methods of a generated class can be called.** All of them take what its plan asks for.
Each one but the constructor can be called; the constructor can, and all of them can, exactly if
the parameters of the superclass's constructor leave room for the receiver and the interceptor. -/
theorem generate_passable_iff (h : generate g blueprint = .ok a) (hb : g.bindings.WellNamed)
    (hs : blueprint.surface.Passable) (hparams : ∀ t ∈ blueprint.baseParams, t.IsSourceValue) :
    ∃ file, blueprint.classFile g = .ok file ∧ a.bytes = file.encode ∧
      (file.pool.TextsFit → ClassFile.ofBytes a.bytes = .ok file) ∧
      file.methods.map file.argumentSlots =
        (Contents.slots blueprint.baseParams a.members).map some ∧
      (∀ (i : Nat) (member : Member), file.methods[i]? = some member → i ≠ 1 →
        file.Passable member) ∧
      (∃ member, file.methods[1]? = some member ∧ file.memberName member = .ok "<init>" ∧
        (file.Passable member ↔ JvmType.slotCount blueprint.baseParams ≤ 253)) ∧
      ((∀ member ∈ file.methods, file.Passable member) ↔
        JvmType.slotCount blueprint.baseParams ≤ 253) := by
  obtain ⟨o, file, b, houtline, hrun, hfile, hmembers, hbytes⟩ := generate_ok h
  obtain ⟨hplan, hbindings, hbase, -⟩ := outline_eq_ok houtline
  have hpassable : ∀ p ∈ o.plan.members, p.Passable := fun p hp => passable_of_mem hs hplan hp
  have hslots : file.methods.map file.argumentSlots =
      (Contents.slots blueprint.baseParams a.members).map some := by
    rw [Outline.map_argumentSlots hrun (placed_of_ofSurface hplan), hmembers, ← hbase]
    exact Contents.map_argumentSlots (hbindings ▸ hb)
      (fun t ht => (hparams t (hbase ▸ ht)).isReadableValue) hpassable
  -- what a method takes stands at its place
  have hat : ∀ (i : Nat) (member : Member), file.methods[i]? = some member →
      ∃ n, (Contents.slots blueprint.baseParams a.members)[i]? = some n ∧
        file.argumentSlots member = some n := by
    intro i member hi
    have heq := congrArg (·[i]?) hslots
    simp only [List.getElem?_map, hi, Option.map_some] at heq
    obtain ⟨n, hn, hcount⟩ := Option.map_eq_some_iff.1 heq.symm
    exact ⟨n, hn, hcount.symm⟩
  have hothers : ∀ (i : Nat) (member : Member), file.methods[i]? = some member → i ≠ 1 →
      file.Passable member := by
    intro i member hi hne
    obtain ⟨n, hn, hcount⟩ := hat i member hi
    exact ⟨n, Contents.slots_le (hmembers ▸ hpassable) hn hne, hcount⟩
  obtain ⟨init, hinit, hname⟩ : ∃ member, file.methods[1]? = some member ∧
      file.memberName member = .ok "<init>" := by
    obtain ⟨-, -, hnamed⟩ := Outline.named_of_classFile hrun
    obtain ⟨member, hmember, hname, -⟩ :=
      getElem?_of_forall₂ hnamed.flip (show o.methods[1]? = some _ from rfl)
    exact ⟨member, hmember, hname⟩
  have hconstructor : file.Passable init ↔ JvmType.slotCount blueprint.baseParams ≤ 253 := by
    obtain ⟨n, hn, hcount⟩ := hat 1 init hinit
    cases hn
    constructor
    · rintro ⟨n, hle, hn⟩
      cases hcount.symm.trans hn
      omega
    · exact fun hle => ⟨_, by omega, hcount⟩
  refine ⟨file, hfile, hbytes, fun htexts => hbytes ▸ (Outline.read_back hrun htexts).1, hslots,
    hothers, ⟨init, hinit, hname, hconstructor⟩, fun hall => ?_, fun hle member hmember => ?_⟩
  · exact hconstructor.1 (hall init (List.mem_of_getElem? hinit))
  · obtain ⟨i, hi⟩ := List.mem_iff_getElem?.1 hmember
    by_cases hone : i = 1
    · cases hinit.symm.trans (hone ▸ hi)
      exact hconstructor.2 hle
    · exact hothers i member hi hone

/-! ### A constructor that is full -/

/-- As many wide numbers as a constructor can be called with. -/
def fullParams : List JvmType :=
  List.replicate 127 (.primitive .long)

/-- A class to extend, with a constructor of so many parameters. -/
def full : Blueprint :=
  { Blueprint.ofSurface "demo.P"
      ⟨[{ Contract.ofClass "demo.Base" with constructors := [fullParams] }]⟩ with
    baseParams := fullParams }

theorem isSourceValue_full : ∀ t ∈ full.baseParams, t.IsSourceValue := by
  have hlong : JvmType.ofSourceName "long" = .ok (.primitive .long) := by decide +kernel
  intro t ht
  obtain rfl : t = .primitive .long := List.eq_of_mem_replicate ht
  exact ⟨⟨"long", hlong⟩, nofun⟩

theorem outline_full :
    full.outline .standard = .ok (full.outlineBelow "demo/Base" .standard) := by
  have hkeys : Plan.keys (Plan.picked full.surface) =
      ["equals(Ljava/lang/Object;)Z", "hashCode()I", "toString()Ljava/lang/String;"] := by
    decide +kernel
  exact outline_of_keys (by decide +kernel) (by decide) hkeys (by decide) (by decide +kernel)
    (by decide +kernel)

theorem typed_full : (full.outlineBelow "demo/Base" .standard).Typed := by
  have hsource : full.surface.IsSource := by
    unfold full Blueprint.ofSurface
    refine ⟨?_, ?_, ?_⟩ <;> simp [Contract.ofClass, Surface.bases]
  exact typed_outline hsource isSourceValue_full
    (Bindings.wellNamed_ofPackage (.inr (by decide))) outline_full

theorem generate_full : ∃ a, generate .standard full = .ok a := by
  have hsorted := Dispatcher.byId_eq typed_full.numbered.ids
  obtain ⟨hspan, hroom⟩ :
      (∀ m ∈ (full.outlineBelow "demo/Base" .standard).methods, ∀ body ∈ m.body,
        Code.Op.span body.ops ≤ 32767) ∧
      1 + (full.outlineBelow "demo/Base" .standard).room
        (full.interfaces Generator.standard.bindings) ≤ PoolBuilder.limit := by
    simp only [Outline.room, Outline.methods, Dispatcher.dispatch, Dispatcher.dispatchBody,
      hsorted]
    decide +kernel
  obtain ⟨a, -, ha, -⟩ := exists_generate (P := fun _ => True) outline_full typed_full
    ⟨fun _ _ => trivial, hspan, fun _ _ _ _ => .any⟩ hroom
  exact ⟨a, ha⟩

/-- The constructor of the class that extends it cannot be called, though the class is
generated. -/
theorem generate_passable_full : Generator.standard.bindings.WellNamed ∧ full.surface.Passable ∧
    JvmType.slotCount fullParams = 254 ∧
    ∃ (a : Artifact) (file : ClassFile) (member : Member), generate .standard full = .ok a ∧
      a.bytes = file.encode ∧ member ∈ file.methods ∧ file.memberName member = .ok "<init>" ∧
      ¬ file.Passable member := by
  have hnamed : Generator.standard.bindings.WellNamed :=
    Bindings.wellNamed_ofPackage (.inr (by decide))
  have hsurface : full.surface.Passable := by
    unfold full Blueprint.ofSurface
    refine ⟨?_, ?_, ?_⟩ <;> simp [Contract.ofClass]
  have hcount : JvmType.slotCount fullParams = 254 := by decide +kernel
  obtain ⟨a, ha⟩ := generate_full
  obtain ⟨file, -, hbytes, -, -, -, ⟨member, hmember, hname, hpassable⟩, -⟩ :=
    generate_passable_iff ha hnamed hsurface isSourceValue_full
  refine ⟨hnamed, hsurface, hcount, a, file, member, ha, hbytes, List.mem_of_getElem? hmember,
    hname, hpassable.not.2 ?_⟩
  change ¬ JvmType.slotCount fullParams ≤ 253
  rw [hcount]
  decide

end Proxy

end ProxyForge
