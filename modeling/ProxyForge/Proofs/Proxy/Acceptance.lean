import ProxyForge.Proofs.Proxy.Dispatcher
import ProxyForge.Proofs.Proxy.Forwarder
import ProxyForge.Proofs.SourceName
import ProxyForge.Proxy.Artifact
/-!
# Generated code is accepted

For a surface whose types are written in source, nothing is ever wrong with generated code: if
there is no class, the surface is of no use or a limit is exceeded (`generate_foreseen`). Each
method that is drafted has code, and its returns are of the kind of its result
(`Outline.Drafted`).
-/

namespace ProxyForge

open Outcome

/-- A type of values that some source text names. -/
def JvmType.IsSourceValue (t : JvmType) : Prop :=
  t.IsSource ∧ t ≠ .void

/-- **A surface with types that are written in source**, whose base lists no constructor as a
method. -/
structure Surface.IsSource (s : Surface) : Prop where
  params : ∀ c ∈ s.contracts, ∀ m ∈ c.methods, ∀ t ∈ m.signature.params, t.IsSourceValue
  result : ∀ c ∈ s.contracts, ∀ m ∈ c.methods, m.signature.result.IsSource
  name : ∀ c ∈ s.bases, ∀ m ∈ c.methods, m.name ≠ "<init>"

theorem JvmType.IsSourceValue.isReadableValue {t : JvmType} (h : t.IsSourceValue) :
    t.isReadableValue :=
  Bool.and_eq_true_iff.2 ⟨decide_eq_true h.2, h.1.isReadable⟩

namespace Proxy

open Code (Kind MethodDraft ClassDraft)
open Code.ClassDraft (Sound)
open Interner (Faultless)

/-- **Why there may be no class**, though nothing is wrong with its code: the surface is of no use,
or ids or a limit of the format stand against it. -/
inductive GenerationError.Foreseen : GenerationError → Prop
  | invalidSurface (defect : SurfaceDefect) : Foreseen (.invalidSurface defect)
  | idCollision (first second : String) (id : Int32) : Foreseen (.idCollision first second id)
  | tooManyMembers (count : Nat) : Foreseen (.tooManyMembers count)
  | tooManyConstants (count : Nat) : Foreseen (.emission (.tooManyConstants count))
  | tooMany (what : Counted) (count : Nat) : Foreseen (.emission (.tooMany what count))
  | codeTooLarge (method : String) (size : Nat) : Foreseen (.emission (.codeTooLarge method size))
  | branchOutOfRange (method : String) (offset : Nat) :
      Foreseen (.emission (.branchOutOfRange method offset))

theorem GenerationError.foreseen_emission {e : EmissionError} (h : e.isDefect = false) :
    Foreseen (.emission e) := by
  cases e with
  | tooManyConstants count => exact .tooManyConstants count
  | tooMany what count => exact .tooMany what count
  | codeTooLarge method size => exact .codeTooLarge method size
  | branchOutOfRange method offset => exact .branchOutOfRange method offset
  | invalidCode method defect => cases h

/-! ## Members -/

variable {s : Surface} {p : Planned} {o : Outline} {plan : Plan} {hash : String → Int32}

theorem typed_of_universal (h : p.signature ∈ Plan.universalSignatures) : p.Typed := by
  have hparams : ∀ signature ∈ Plan.universalSignatures,
      signature.params.all JvmType.isReadableValue ∧ signature.result.isReadable ∧
        signature.name ≠ Code.constructorName := by
    decide +kernel
  obtain ⟨hvalues, hresult, hname⟩ := hparams _ h
  exact ⟨List.all_eq_true.1 hvalues, hresult, fun _ => hname⟩

/-- **The members of a plan can be typed**, if the types of the surface are written in source. -/
theorem typed_of_mem (hs : s.IsSource) (h : Plan.ofSurface hash s = .ok plan)
    (hp : p ∈ plan.members) : p.Typed := by
  cases Plan.stems_of_mem h hp with
  | universal _ hsignature => exact typed_of_universal hsignature
  | listed c m hc hm hsignature horigin =>
    refine ⟨fun t ht => ?_, ?_, fun hno => ?_⟩
    · rw [hsignature] at ht
      exact (hs.params c hc m hm t ht).isReadableValue
    · rw [hsignature]
      exact (hs.result c hc m hm).isReadable
    · rw [hsignature]
      refine hs.name c (List.mem_filter.2 ⟨hc, ?_⟩) m hm
      unfold originOf at horigin
      split at horigin
      · exact absurd horigin hno
      · rename_i hkind
        simpa using hkind

/-! ## Methods -/

/-- **A drafted method has code** whose returns are of the kind of its result. -/
def Outline.Drafted (m : MethodDraft) : Prop :=
  ∃ body params result, m.body = some body ∧
    JvmType.ofMethodDescriptor m.descriptor = .ok (params, result) ∧
    body.Returns (Kind.ofType result)

/-- An outline of which the parts can be typed. -/
structure Outline.Typed (o : Outline) : Prop where
  bindings : o.bindings.WellNamed
  members : ∀ p ∈ o.plan.members, p.Typed
  numbered : Plan.Numbered o.plan.members
  baseParams : ∀ t ∈ o.baseParams, t.isReadableValue

namespace Outline

/-- **Nothing is wrong with a drafted method**, and it returns what it says. -/
theorem Typed.sound (h : o.Typed) {m : MethodDraft} (hm : m ∈ o.methods) : Drafted m ∧
    ∀ thisName body, m.body = some body → Sound (m.shape thisName) body := by
  simp only [methods, List.mem_append, List.mem_cons, List.not_mem_nil, or_false, List.mem_map,
    List.mem_filterMap] at hm
  rcases hm with (((rfl | rfl) | ⟨p, hp, rfl⟩) | rfl) | ⟨p, hp, hhelper⟩
  · refine ⟨⟨_, _, .void, rfl, Initializer.parse_classInitializer o,
      Code.Body.returns_of_all (Initializer.all_classBody o)⟩, fun thisName body hbody => ?_⟩
    cases hbody
    exact Initializer.sound_classInitializer h.bindings thisName
  · refine ⟨⟨_, _, .void, rfl, Initializer.parse_constructor h.bindings h.baseParams,
      Code.Body.returns_of_all (Initializer.all_constructorBody o)⟩, fun thisName body hbody => ?_⟩
    cases hbody
    exact Initializer.sound_constructor h.bindings h.baseParams thisName
  · have hp := h.members p hp
    refine ⟨⟨_, _, _, rfl, Forwarder.parse_method o hp.params hp.result,
      Forwarder.returns_body o p⟩, fun thisName body hbody => ?_⟩
    cases hbody
    exact Forwarder.sound_method h.bindings hp.params hp.result thisName
  · refine ⟨⟨_, _, _, rfl, h.bindings.callDescriptor, Dispatcher.returns_dispatch o⟩,
      fun thisName body hbody => ?_⟩
    cases hbody
    exact Dispatcher.sound_dispatch h.bindings h.numbered h.members thisName
  · obtain ⟨-, -, hdescriptor, hbody⟩ := Dispatcher.helper_eq_some hhelper
    have hparse : JvmType.ofMethodDescriptor m.descriptor =
        .ok ([.anyObject, .array .anyObject], .anyObject) := by
      rw [hdescriptor]
      exact Dispatcher.parse_helperDescriptor
    refine ⟨⟨_, _, _, hbody, hparse, Dispatcher.returns_helper p _⟩, fun thisName body hbody => ?_⟩
    exact Dispatcher.sound_helper (h.members p hp) hhelper hbody thisName

/-- **A typed outline is emitted** unless a limit is exceeded. -/
theorem Typed.faultless_classFile (h : o.Typed) (access : UInt16) (interfaces : List String) :
    Faultless (o.classFile access interfaces) := by
  refine Faultless.bind ?_ fun d => Faultless.bind (Faultless.foldlM (fun x _ y => ?_) d) fun d =>
    Faultless.bind (Faultless.foldlM (fun m hm d => ?_) d) fun d => Faultless.bind ?_ fun d =>
      Faultless.bind ?_ fun d => ClassDraft.faultless_finish d
  · exact (Faultless.classRef _).bind fun _ => (Faultless.classRef _).bind fun _ =>
      (Faultless.mapM Faultless.classRef _).bind fun _ => .pure _
  · exact (Faultless.utf8 _).bind fun _ => (Faultless.utf8 _).bind fun _ => .pure _
  · exact ClassDraft.faultless_addMethod d m ((h.sound hm).2 d.thisName)
  · exact (Faultless.utf8 _).bind fun _ => .pure _
  · exact (Faultless.utf8 _).bind fun _ => .pure _

end Outline

/-! ## Generation -/

variable {g : Generator} {blueprint : Blueprint} {e : GenerationError}

theorem foreseen_ofSurface (h : Plan.ofSurface hash s = .error e) : e.Foreseen := by
  rcases bind_eq_error.1 h with hbase | ⟨base, hbase, -⟩
  · unfold Plan.baseOf at hbase
    split at hbase <;> cases hbase
    exact .invalidSurface _
  · rcases Plan.ofSurface_eq hash (Plan.length_bases_le hbase) with ⟨hok, -, -⟩ | ⟨e', he', hrefusal⟩
    · cases h.symm.trans hok
    · cases h.symm.trans he'
      cases hrefusal with
      | collision => exact .idCollision _ _ _
      | crowded => exact .tooManyMembers _

theorem foreseen_superName {base : Option Contract} (h : blueprint.superName base = .error e) :
    e.Foreseen := by
  unfold Blueprint.superName Blueprint.refuse at h
  split at h
  · split at h <;> cases h
    exact .invalidSurface _
  · split at h <;> cases h
    exact .invalidSurface _

/-- Without an outline the surface is of no use, or its ids are. -/
theorem foreseen_outline (h : blueprint.outline g = .error e) : e.Foreseen := by
  unfold Blueprint.outline at h
  split at h
  · cases h
    exact .invalidSurface _
  · rcases bind_eq_error.1 h with hplan | ⟨plan, -, hrest⟩
    · exact foreseen_ofSurface hplan
    · rcases bind_eq_error.1 hrest with hsuper | ⟨superName, -, hresult⟩
      · exact foreseen_superName hsuper
      · cases hresult

/-- **The outline of a blueprint**: the plan of its surface, and the names that it asks for. -/
theorem outline_eq_ok (h : blueprint.outline g = .ok o) :
    Plan.ofSurface g.hash blueprint.surface = .ok o.plan ∧ o.bindings = g.bindings ∧
      o.baseParams = blueprint.baseParams ∧ o.thisName = Name.toInternal blueprint.name ∧
      blueprint.superName o.plan.base = .ok o.superName := by
  unfold Blueprint.outline at h
  split at h
  · cases h
  · obtain ⟨plan, hplan, hrest⟩ := bind_eq_ok.1 h
    obtain ⟨superName, hsuper, hresult⟩ := bind_eq_ok.1 hrest
    cases hresult
    exact ⟨hplan, rfl, rfl, rfl, hsuper⟩

/-- The outline of a blueprint below a superclass, with all candidates that were picked. -/
def Blueprint.outlineBelow (superName : String) (g : Generator) (blueprint : Blueprint) : Outline :=
  ⟨Name.toInternal blueprint.name, superName,
    ⟨Plan.numbered g.hash (Plan.picked blueprint.surface), blueprint.surface.base⟩, g.bindings,
    blueprint.baseParams⟩

/-- **When there is an outline**: the name is one, and ids tell the candidates apart. -/
theorem outline_of_keys {superName : String} {keys : List String}
    (hname : Name.isBinary blueprint.name) (hbases : blueprint.surface.bases.length ≤ 1)
    (hkeys : Plan.keys (Plan.picked blueprint.surface) = keys) (hlen : keys.length ≤ Plan.limit)
    (hids : ∀ k ∈ keys, ∀ k' ∈ keys, g.hash k = g.hash k' → k = k')
    (hsuper : blueprint.superName blueprint.surface.base = .ok superName) :
    blueprint.outline g = .ok (blueprint.outlineBelow superName g) := by
  subst hkeys
  rw [Plan.keys, List.length_map] at hlen
  have hplan := Plan.ofSurface_eq_ok g.hash hbases hlen hids
  unfold Blueprint.outline
  rw [if_neg (by simp [hname])]
  exact bind_eq_ok.2 ⟨_, hplan, bind_eq_ok.2 ⟨_, hsuper, rfl⟩⟩

/-- **The outline of a blueprint with types that are written in source is typed.** -/
theorem typed_outline (hs : blueprint.surface.IsSource)
    (hparams : ∀ t ∈ blueprint.baseParams, t.IsSourceValue) (hb : g.bindings.WellNamed)
    (h : blueprint.outline g = .ok o) : o.Typed := by
  obtain ⟨hplan, hbindings, hbase, -⟩ := outline_eq_ok h
  refine ⟨hbindings ▸ hb, fun p hp => typed_of_mem hs hplan hp, Plan.numbered_of_ofSurface hplan,
    fun t ht => ?_⟩
  rw [hbase] at ht
  exact (hparams t ht).isReadableValue

/-- **Nothing is wrong with generated code**: there is a class, or an error that says nothing of
its code; and each method has code whose returns are of the kind of its result. -/
theorem generate_foreseen (blueprint : Blueprint) (hash : String → Int32) {package : String}
    (hs : blueprint.surface.IsSource)
    (hparams : ∀ t ∈ blueprint.baseParams, t.IsSourceValue)
    (hpackage : package = "" ∨ Name.isBinary package) :
    ((∃ a, generate ⟨.ofPackage package, hash⟩ blueprint = .ok a) ∨
      ∃ e, generate ⟨.ofPackage package, hash⟩ blueprint = .error e ∧ e.Foreseen) ∧
    ∀ o, blueprint.outline ⟨.ofPackage package, hash⟩ = .ok o → ∀ m ∈ o.methods,
      Outline.Drafted m := by
  have htyped : ∀ o, blueprint.outline ⟨.ofPackage package, hash⟩ = .ok o → o.Typed := fun o ho =>
    typed_outline hs hparams (Bindings.wellNamed_ofPackage hpackage) ho
  refine ⟨?_, fun o ho m hm => ((htyped o ho).sound hm).1⟩
  rcases hrun : generate ⟨.ofPackage package, hash⟩ blueprint with e | a
  · refine .inr ⟨e, rfl, ?_⟩
    rcases bind_eq_error.1 hrun with houtline | ⟨o, ho, hrest⟩
    · exact foreseen_outline houtline
    · rcases bind_eq_error.1 hrest with hemit | ⟨file, -, hresult⟩
      · unfold Blueprint.emit at hemit
        split at hemit
        · cases hemit
        · rename_i hfile
          cases hemit
          exact GenerationError.foreseen_emission
            ((htyped o ho).faultless_classFile _ _ _ _ _ hfile)
      · cases hresult
  · exact .inl ⟨a, rfl⟩

/-- An interface with a member, and a class to extend with another one. -/
def adder : Blueprint :=
  .ofSurface "demo.Adder$" ⟨[(Contract.ofInterface "demo.Adder").addMethod
      (.ofSignature ⟨"add", [.primitive .int, .array (.primitive .long)], .object "demo.Sum"⟩),
    (Contract.ofClass "demo.Base").addMethod (.ofSignature ⟨"close", [], .void⟩)]⟩

/-- A generator that numbers keys by their lengths. -/
def lengthwise : Generator :=
  ⟨.ofPackage "demo.runtime", fun key => Int32.ofNat key.length⟩

theorem toInternal_adder : Name.toInternal adder.name = "demo/Adder$" := by
  decide +kernel

theorem isSource_adder : adder.surface.IsSource := by
  obtain ⟨hint, hlongs, hsum, hvoid⟩ : JvmType.ofSourceName "int" = .ok (.primitive .int) ∧
      JvmType.ofSourceName "long[]" = .ok (.array (.primitive .long)) ∧
      JvmType.ofSourceName "demo.Sum" = .ok (.object "demo.Sum") ∧
      JvmType.ofSourceName "void" = .ok .void := by
    decide +kernel
  refine ⟨?_, ?_, by decide +kernel⟩
  · simp only [adder, Blueprint.ofSurface, Contract.addMethod, Contract.ofInterface,
      Contract.ofClass, Method.ofSignature, List.nil_append, List.forall_mem_cons]
    exact ⟨⟨⟨⟨⟨_, hint⟩, nofun⟩, ⟨⟨_, hlongs⟩, nofun⟩, nofun⟩, nofun⟩, ⟨nofun, nofun⟩, nofun⟩
  · simp only [adder, Blueprint.ofSurface, Contract.addMethod, Contract.ofInterface,
      Contract.ofClass, Method.ofSignature, List.nil_append, List.forall_mem_cons]
    exact ⟨⟨⟨_, hsum⟩, nofun⟩, ⟨⟨_, hvoid⟩, nofun⟩, nofun⟩

theorem outline_adder_eq :
    adder.outline lengthwise = .ok (adder.outlineBelow "demo/Base" lengthwise) := by
  have hkeys : Plan.keys (Plan.picked adder.surface) = ["equals(Ljava/lang/Object;)Z",
      "hashCode()I", "toString()Ljava/lang/String;", "add(I[J)Ldemo/Sum;", "close()V"] := by
    decide +kernel
  exact outline_of_keys (by decide +kernel) (by decide) hkeys (by decide) (by decide +kernel)
    (by decide +kernel)

theorem outline_adder : ∃ o, adder.outline lengthwise = .ok o :=
  ⟨_, outline_adder_eq⟩

/-- It has an outline, and all of its methods are drafted well. -/
theorem generate_foreseen_adder :
    adder.surface.IsSource ∧ (∀ t ∈ adder.baseParams, t.IsSourceValue) ∧
      Name.isBinary "demo.runtime" ∧
      ((∃ a, generate lengthwise adder = .ok a) ∨
        ∃ e, generate lengthwise adder = .error e ∧ e.Foreseen) ∧
      ∃ o, adder.outline lengthwise = .ok o ∧ ∀ m ∈ o.methods, Outline.Drafted m := by
  have hbase : ∀ t ∈ adder.baseParams, t.IsSourceValue := nofun
  have hpackage : Name.isBinary "demo.runtime" := by decide +kernel
  obtain ⟨hresult, hmethods⟩ :=
    generate_foreseen adder lengthwise.hash isSource_adder hbase (.inr hpackage)
  obtain ⟨o, ho⟩ := outline_adder
  exact ⟨isSource_adder, hbase, hpackage, hresult, o, ho, hmethods o ho⟩

end Proxy

end ProxyForge
