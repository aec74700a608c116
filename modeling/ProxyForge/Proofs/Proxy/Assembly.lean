import ProxyForge.Proofs.Draft.Size
import ProxyForge.Proofs.Proxy.Acceptance
/-!
# Generated classes, read back

A generated class is a draft on which calls are made one after the other (`Outline.calls`). Its
bodies have few labels, the `dispatch` of many members included: a switch takes eight bytes for each
of its cases (`Dispatcher.fewLabels_dispatch`). So the class is read back from its bytes
(`Outline.read_back`).
-/

namespace ProxyForge

namespace Proxy

open Code (Body Block Call ClassDraft Label LaidOut MethodDraft MethodHeader Op Session)
open Outcome

variable {o : Outline} {shape : MethodHeader} {access : UInt16} {interfaces : List String}
  {file : ClassFile} {b b' : PoolBuilder}

/-! ## Labels -/

theorem Initializer.fewLabels_classBody (o : Outline) : (classBody o).FewLabels shape := by
  by_cases hmembers : o.plan.members = []
  · refine ⟨[⟨none, [.ret none]⟩], ?_, fun _ _ _ => Nat.zero_le _⟩
    unfold classBody
    rw [if_pos (List.isEmpty_iff.2 hmembers)]
    rfl
  · rw [classBody_eq hmembers]
    exact ⟨Code.Stretch.blocks (classStretches o), by
      simp [Block.linesOf, Block.lines, Code.Stretch.blocks, classStretches],
      fun _ _ _ => Nat.le_of_ble_eq_true rfl⟩

theorem Initializer.fewLabels_constructor (o : Outline) :
    (Body.mk (Code.Line.straight (constructorOps o)) []).FewLabels shape :=
  ⟨[⟨none, constructorOps o⟩], (List.append_nil _).symm, fun _ _ _ => Nat.zero_le _⟩

theorem Forwarder.fewLabels_body (o : Outline) (p : Planned) : (body o p).FewLabels shape := by
  refine ⟨blocks o p, body_lines o p, fun _ _ _ => ?_⟩
  rw [labelsOf_blocks]
  rcases labelsOf_presentBlocks p.signature.result with h | h <;> rw [h] <;>
    exact Nat.le_of_ble_eq_true rfl

theorem Dispatcher.fewLabels_helper (p : Planned) (field : Code.FieldRef) :
    (helperBody p field).FewLabels shape :=
  ⟨_, helperBody_lines "" p field, fun _ _ _ => Nat.le_of_ble_eq_true rfl⟩

theorem Dispatcher.length_reach_ge (o : Outline) (p : Planned) :
    3 ≤ (reach (L := Label) o p).length := by
  unfold reach
  split <;> simp only [List.length_append, List.length_cons, List.length_nil] <;> omega

theorem Dispatcher.fewLabels_dispatch (o : Outline) : (dispatchBody o).FewLabels shape := by
  refine ⟨_, dispatchBody_lines o, fun p l hl => ?_⟩
  have hweight := hl.weightOf_le
  have hserving : 3 * (byId o.plan.members).length ≤
      Op.weightOf (Block.opsOf ((byId o.plan.members).map (memberBlock o))) := by
    induction byId o.plan.members with
    | nil => exact Nat.zero_le _
    | cons q members ih =>
      have hone := Nat.le_trans (length_reach_ge o q) (Op.length_le_weightOf _)
      rw [List.map_cons, Block.opsOf_cons, Op.weightOf_append, List.length_cons]
      change _ ≤ Op.weightOf (reach o q) + _
      omega
  rw [Block.ops_eq (dispatchBody_lines o), Block.opsOf_cons, servingBlocks, Block.opsOf_append,
    Op.weightOf_append, Op.weightOf_append] at hweight
  have hswitch : Op.weightOf (switchBlock o).ops = 3 + 8 * (byId o.plan.members).length := by
    have hcases : (switchOp o).weight = 1 + 8 * (byId o.plan.members).length := by
      rw [switchOp, Op.weight, switchCases, List.length_map]
    rw [switchBlock, Op.weightOf_cons, Op.weightOf_cons, Op.weightOf_cons, hcases]
    change 1 + (1 + (1 + _ + 0)) = _
    omega
  rw [labelsOf_blocks, List.length_append, List.length_map, List.length_singleton]
  omega

/-- **The bodies of a generated class have few labels.** -/
theorem Outline.fewLabels {m : MethodDraft} (hm : m ∈ o.methods) {body : Body}
    (hbody : m.body = some body) : body.FewLabels shape := by
  simp only [methods, List.mem_append, List.mem_cons, List.not_mem_nil, or_false, List.mem_map,
    List.mem_filterMap] at hm
  rcases hm with (((rfl | rfl) | ⟨p, -, rfl⟩) | rfl) | ⟨p, -, hhelper⟩
  · cases hbody
    exact Initializer.fewLabels_classBody o
  · cases hbody
    exact Initializer.fewLabels_constructor o
  · cases hbody
    exact Forwarder.fewLabels_body o p
  · cases hbody
    exact Dispatcher.fewLabels_dispatch o
  · obtain ⟨-, -, -, hsome⟩ := Dispatcher.helper_eq_some hhelper
    cases hsome.symm.trans hbody
    exact Dispatcher.fewLabels_helper p _

/-! ## The calls on the draft -/

namespace Outline

/-- The call that adds a field. -/
def fieldCall (field : UInt16 × Code.FieldRef) : Call :=
  .addField field.1 field.2.name field.2.descriptor

/-- **The calls that make a generated class.** -/
def calls (o : Outline) : List Call :=
  o.fields.map fieldCall ++ o.methods.map .addMethod ++
    [.setSourceFile sourceFile, .annotate o.bindings.marker]

/-- **What the calls add**: each of its lists comes from calls of its own. -/
theorem filterMap_calls (o : Outline) :
    o.calls.filterMap Session.fieldOf =
        o.fields.map (fun field => (field.1, field.2.name, field.2.descriptor)) ∧
      o.calls.filterMap Session.methodOf = o.methods ∧
      o.calls.filterMap Session.sourceOf = [sourceFile] ∧
      o.calls.filterMap Session.annotationOf = [o.bindings.marker] := by
  unfold calls
  refine ⟨?_, ?_, ?_, ?_⟩ <;>
    simp [List.filterMap_cons, List.filterMap_map, Function.comp_def, fieldCall,
      Session.fieldOf, Session.methodOf, Session.sourceOf, Session.annotationOf]

/-- **A generated class is a draft on which all calls succeeded.** -/
theorem exists_session (h : o.classFile access interfaces .empty = .ok file b') :
    ∃ s : Session, s.Recorded access o.thisName o.superName interfaces ∧
      s.accepted.map Prod.fst = o.calls ∧ s.draft.finish s.pool = .ok file b' := by
  obtain ⟨d, b, hnew, h₁⟩ := bind_run_ok.1 h
  obtain ⟨d₁, b₁, hfields, h₂⟩ := bind_run_ok.1 h₁
  obtain ⟨d₂, b₂, hmethods, h₃⟩ := bind_run_ok.1 h₂
  obtain ⟨d₃, b₃, hsource, h₄⟩ := bind_run_ok.1 h₃
  obtain ⟨d₄, b₄, hmarker, hfinish⟩ := bind_run_ok.1 h₄
  have hrun : o.calls.foldlM Call.run d b = .ok d₄ b₄ := by
    have hfields' : (o.fields.map fieldCall).foldlM Call.run d b = .ok d₁ b₁ := by
      rw [List.foldlM_map]
      exact hfields
    have hmethods' : (o.methods.map .addMethod).foldlM Call.run d₁ b₁ = .ok d₂ b₂ := by
      rw [List.foldlM_map]
      exact hmethods
    unfold calls
    rw [List.foldlM_append, List.foldlM_append]
    refine bind_run_ok.2 ⟨d₂, b₂, bind_run_ok.2 ⟨d₁, b₁, hfields', hmethods'⟩, ?_⟩
    exact bind_run_ok.2 ⟨d₃, b₃, hsource, bind_run_ok.2 ⟨d₄, b₄, hmarker, rfl⟩⟩
  obtain ⟨hdraft, hpool, haccepted⟩ := Session.calls_of_foldlM (s := ⟨d, b, []⟩) hrun
  refine ⟨_, (Session.Recorded.start hnew).calls o.calls, haccepted, ?_⟩
  rw [hdraft, hpool]
  exact hfinish

/-- **What a generated class is made of**: the session in which it was drafted added the fields of
the outline, and the parts of its methods. -/
theorem exists_parts (h : o.classFile access interfaces .empty = .ok file b') :
    ∃ s : Session, s.Recorded access o.thisName o.superName interfaces ∧
      s.draft.finish s.pool = .ok file b' ∧
      s.fields = o.fields.map (fun field => (field.1, field.2.name, field.2.descriptor)) ∧
      s.sourceFiles = [sourceFile] ∧ s.annotations = [o.bindings.marker] ∧
      file.pool = b'.pool ∧
      List.Forall₂ (fun m member => ∃ b b'', ClassDraft.MethodParts o.thisName m b b'' member ∧
        b''.Grows b') o.methods file.methods := by
  obtain ⟨s, hrecord, hcalls, hfinish⟩ := exists_session h
  obtain ⟨hfields, hmethodsOf, hsources, hannotations⟩ := filterMap_calls o
  rw [← hcalls, List.filterMap_map] at hfields hmethodsOf hsources hannotations
  have hmethods : s.methods.map Prod.fst = o.methods := by
    rw [← hmethodsOf, Session.methods, List.map_filterMap]
    refine List.filterMap_congr fun entry _ => ?_
    rw [Option.map_map]
    exact congrFun Option.map_id _
  refine ⟨s, hrecord, hfinish, hfields, hsources, hannotations, ?_⟩
  obtain ⟨source, b₁, annotations, hsource, hannotated, -, -, -, rfl⟩ :=
    ClassDraft.finish_ok hfinish
  have hlater := hrecord.extends_pool
    (((ClassDraft.extending_sourceAttribute _).of_ok hsource).trans
      ((ClassDraft.extending_annotationsAttribute _).of_ok hannotated))
  refine ⟨rfl, ?_⟩
  rw [← hmethods, List.forall₂_map_left_iff]
  exact hlater.methods.imp fun m _ ⟨b'', hparts, hgrows⟩ => ⟨m.2, b'', hparts, hgrows⟩

/-- **A class file shows an outline**: its names, its fields and methods in their order, and what
is said of the whole class. -/
structure ShownBy (o : Outline) (access : UInt16) (interfaces : List String) (c : ClassFile) :
    Prop where
  version : c.minor = 0 ∧ c.major = ClassDraft.majorVersion
  access : c.access = access
  thisName : c.thisName = .ok o.thisName
  superName : c.superName = .ok (some o.superName)
  interfaceNames : c.interfaceNames = .ok interfaces
  fields : List.Forall₂ (fun field member => Code.FieldShown c field.1 field.2.name
    field.2.descriptor member) o.fields c.fields
  methods : List.Forall₂ (fun m member => Code.MethodDeclared c m.access m.name m.descriptor
    m.exceptions member) o.methods c.methods
  sourceFile : c.sourceFile = .ok (some sourceFile)
  annotationTypes : c.annotationTypes = .ok [o.bindings.marker]

/-- **A generated class is read back from its bytes**, and shows its outline. -/
theorem read_back (h : o.classFile access interfaces .empty = .ok file b')
    (htexts : file.pool.TextsFit) :
    ClassFile.ofBytes file.encode = .ok file ∧ file.pool = b'.pool ∧
      o.ShownBy access interfaces file ∧
      List.Forall₂ (fun m member => ∃ b b'', ClassDraft.MethodParts o.thisName m b b'' member ∧
        b''.Grows b') o.methods file.methods := by
  obtain ⟨s, hrecord, hfinish, hfields, hsources, hannotations, hpool, hparts⟩ := exists_parts h
  have hfew : s.annotations.length ≤ 65535 := by
    rw [hannotations]
    exact Nat.le_of_ble_eq_true rfl
  have hshown := hrecord.announced hfinish hfew
  have hfits : ∀ m ∈ o.methods, ∀ member b b'', ClassDraft.MethodParts o.thisName m b b'' member →
      b''.Grows b' → ∀ a ∈ member.attributes, a.Fits := fun m hm member b b'' hmade hgrows =>
    hmade.fits hgrows (hpool ▸ htexts) fun body hbody => fewLabels hm hbody
  refine ⟨hrecord.ofBytes_encode hfinish htexts hfew fun member hmember => ?_, hpool,
    ⟨hshown.version, hshown.access, hshown.thisName, hshown.superName, hshown.interfaceNames,
      ?_, ?_, ?_, ?_⟩, hparts⟩
  · obtain ⟨k, hk⟩ := List.mem_iff_getElem?.1 hmember
    obtain ⟨m, hm, b, b'', hmade, hgrows⟩ := getElem?_of_forall₂ hparts hk
    exact hfits m (List.mem_of_getElem? hm) member b b'' hmade hgrows
  · have hfieldsShown := hshown.fields
    rwa [hfields, List.forall₂_map_left_iff] at hfieldsShown
  · refine forall₂_imp_of_mem hparts fun m hm member _ ⟨b, b'', hmade, hgrows⟩ => ?_
    exact hmade.declared hgrows hpool (hfits m hm member b b'' hmade hgrows)
  · rw [hshown.sourceFile, hsources]
    rfl
  · rw [hshown.annotationTypes, hannotations]

end Outline

/-! ## Generation -/

variable {g : Generator} {blueprint : Blueprint} {a : Artifact}

/-- The class file of a blueprint. -/
def Blueprint.classFile (g : Generator) (blueprint : Blueprint) :
    Except GenerationError ClassFile := do
  let o ← blueprint.outline g
  emit (o.classFile (blueprint.access ||| Access.isSuper) (blueprint.interfaces g.bindings))

/-- **What is generated** are the bytes of the class file. -/
theorem generate_ok (h : generate g blueprint = .ok a) : ∃ o file b,
    blueprint.outline g = .ok o ∧
    o.classFile (blueprint.access ||| Access.isSuper) (blueprint.interfaces g.bindings) .empty =
      .ok file b ∧
    blueprint.classFile g = .ok file ∧ a.members = o.plan.members ∧ a.bytes = file.encode := by
  obtain ⟨o, ho, h₁⟩ := bind_eq_ok.1 h
  obtain ⟨file, hfile, hresult⟩ := bind_eq_ok.1 h₁
  cases hresult
  have hemit := hfile
  unfold Blueprint.emit at hfile
  split at hfile
  · rename_i b hrun
    cases hfile
    exact ⟨o, file, b, ho, hrun, bind_eq_ok.2 ⟨o, ho, hemit⟩, rfl, rfl⟩
  · cases hfile

end Proxy

end ProxyForge
