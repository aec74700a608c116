import ProxyForge.Proofs.Exec.Heights
import ProxyForge.Proofs.Proxy.Routing
/-!
# The routines of a generated class

Every method of a generated class is read back from the bytes as a routine that carries the body it
was drafted with (`exists_routines`). Frames were inferred for that body, so a typing of it is
known: how many values lie on the stack at each of its instructions.
-/

namespace ProxyForge

namespace Proxy

open Code (Body CallKind ClassDraft Context Label LaidOut MethodDraft MethodHeader MethodRef Op
  Program TypeState)
open Exec (Carries Routine State World runOps)
open Outcome

/-- **A body that frames were inferred for**: the state at its start, and a typing. It is not too
long. -/
structure Typed (header : MethodHeader) (body : Body) (p : Program) (context : Context)
    (entry : TypeState) (known : Nat → TypeState) : Prop where
  resolve : body.resolve = .ok p
  ops : context.ops = p.ops
  enters : TypeState.entry header = .ok entry
  typing : context.Typing entry known
  weight : Op.weightOf body.ops ≤ 65535

/-- The descriptor of a call can be read. -/
theorem Typed.exists_parse {header : MethodHeader} {body : Body} {p : Program}
    {context : Context} {entry : TypeState} {known : Nat → TypeState} {kind : CallKind}
    {method : MethodRef} (h : Typed header body p context entry known)
    (hcall : .invoke kind method ∈ body.ops) :
    ∃ params result, JvmType.ofMethodDescriptor method.descriptor = .ok (params, result) := by
  obtain ⟨k, hk⟩ := List.mem_iff_getElem?.1 hcall
  have hop : context.ops[k]? = some (.invoke kind method) :=
    h.ops ▸ Dispatcher.getElem?_of_targets h.resolve hk rfl
  obtain ⟨after, hafter, -⟩ := h.typing.step k _ hop
  obtain ⟨params, result, hparse, -⟩ := TypeState.length_call hafter
  exact ⟨params, result, hparse⟩

/-- **A call behind straight code finds its operands**, as many as its descriptor says. -/
theorem Typed.exists_operands {header : MethodHeader} {body : Body} {p : Program}
    {context : Context} {entry : TypeState} {known : Nat → TypeState} {w : World} {s s' : State}
    {kind : CallKind} {method : MethodRef} (h : Typed header body p context entry known)
    (front : List (Op Label))
    (hfront : ∀ (k : Nat) (op : Op Label), front[k]? = some op → body.ops[k]? = some op)
    (hplain : ∀ op ∈ front, op.targets = [])
    (hcall : body.ops[front.length]? = some (.invoke kind method)) (hstack : s.stack = [])
    (hrun : runOps w front s = some s') :
    ∃ params result, JvmType.ofMethodDescriptor method.descriptor = .ok (params, result) ∧
      Run.State.operandCount kind params ≤ s'.stack.length := by
  have hops : ∀ (k : Nat) (op : Op Label), body.ops[k]? = some op → op.targets = [] →
      context.ops[k]? = some op := fun k op hop htargets =>
    h.ops ▸ Dispatcher.getElem?_of_targets h.resolve hop htargets
  have hfirst : (known 0).stack.length = s.stack.length := by
    rw [← h.typing.entry_le.stack.length_eq, TypeState.entry_ok h.enters, hstack]
    rfl
  have hop := hops _ _ hcall rfl
  rw [← Nat.zero_add front.length] at hop
  have hheight := Exec.height_of_runOps h.typing (fun k op hk => by
      rw [Nat.zero_add]
      exact hops k op (hfront k op hk) (hplain op (List.mem_of_getElem? hk)))
    (Array.getElem?_eq_some_iff.1 hop).1 hrun hfirst
  obtain ⟨params, result, hparse, hcount⟩ := h.typing.operands hop
  exact ⟨params, result, hparse, hheight ▸ hcount⟩

/-- **A drafted method as it is read back**: its name and descriptor, and a routine that carries
its body. -/
structure Reads (c : ClassFile) (thisName : String) (m : MethodDraft) (body : Body)
    (member : Member) (r : Routine) (place : Nat → Nat) : Prop where
  name : c.memberName member = .ok m.name
  descriptor : c.memberDescriptor member = .ok m.descriptor
  routine : Routine.ofMember c member = some r
  carries : Carries r body place
  typed : ∃ p context entry known, Typed (m.shape thisName) body p context entry known

variable {g : Generator} {blueprint : Blueprint} {a : Artifact} {o : Outline} {access : UInt16}
  {interfaces : List String} {file : ClassFile} {b : PoolBuilder}

/-- Nothing stands at index zero of the pool of a generated class. -/
theorem Outline.get_zero (h : o.classFile access interfaces .empty = .ok file b) (c : Constant) :
    b.pool.get 0 ≠ .ok c := by
  obtain ⟨s, hrecord, -, hfinish⟩ := exists_session h
  obtain ⟨source, b₁, annotations, hsource, hannotated, -⟩ := ClassDraft.finish_ok hfinish
  have hlater := hrecord.extends_pool
    (((ClassDraft.extending_sourceAttribute _).of_ok hsource).trans
      ((ClassDraft.extending_annotationsAttribute _).of_ok hannotated))
  exact PoolBuilder.get_zero_of_extends hlater.extends_empty c

/-- **The methods of a generated class are read back** as routines that carry their bodies. -/
theorem exists_routines (h : generate g blueprint = .ok a)
    (htexts : ∀ file, blueprint.classFile g = .ok file → file.pool.TextsFit) :
    ∃ o c, blueprint.outline g = .ok o ∧ a.members = o.plan.members ∧
      ClassFile.ofBytes a.bytes = .ok c ∧ c.thisName = .ok o.thisName ∧
      c.superName = .ok (some o.superName) ∧
      ∀ (k : Nat) (m : MethodDraft) (body : Body), o.methods[k]? = some m → m.body = some body →
        ∃ member r place, c.methods[k]? = some member ∧
          Reads c o.thisName m body member r place := by
  obtain ⟨o, file, b, houtline, hrun, hfile, hmembers, hbytes⟩ := generate_ok h
  obtain ⟨hread, hpool, hshown, hmethods⟩ := Outline.read_back hrun (htexts file hfile)
  refine ⟨o, file, houtline, hmembers, hbytes ▸ hread, hshown.thisName, hshown.superName,
    fun k m body hm hbody => ?_⟩
  obtain ⟨member, hmember, b₀, b₁, hparts, hgrows⟩ := getElem?_of_forall₂ hmethods.flip hm
  have hfits := hparts.fits hgrows (hpool ▸ htexts file hfile) fun body hbody =>
    Outline.fewLabels (List.mem_of_getElem? hm) hbody
  obtain ⟨i, b₂, j, b₃, -, -, code, p, l, b₄, info, b₅, hcode, hprogram, hlayout, hinfo, hlater,
    -, -, hbytes', hhandlers, -⟩ := hparts.code (c := file) hgrows hpool hfits hbody
  obtain ⟨r, place, hroutine, hcarries⟩ :=
    Exec.exists_carries hprogram hlayout hlater (Outline.get_zero hrun) hbytes' hhandlers
  have hl : LaidOut (m.shape o.thisName) body p l := ⟨hprogram, _, _, hlayout⟩
  obtain ⟨e, s, hf⟩ := Code.framed_of_ofProgram hl hinfo
  have hdeclared := hparts.declared (c := file) hgrows hpool hfits
  refine ⟨member, r, place, hmember, hdeclared.name, hdeclared.descriptor, ?_, hcarries, p, _, e, _,
    hl.resolve, rfl, hf.entry, (hl.inferred_max hf.entry hf.size_pos hf.infer).typing,
    hl.weightOf_le⟩
  unfold Routine.ofMember
  rw [hcode, hpool]
  exact hroutine

/-! ## Where methods stand -/

theorem Outline.getElem?_methods_classInitializer (o : Outline) :
    o.methods[0]? = some (Initializer.classInitializer o) := rfl

theorem Outline.getElem?_methods_constructor (o : Outline) :
    o.methods[1]? = some (Initializer.constructor o) := rfl

/-- Forwarders stand behind the initializers. -/
theorem Outline.getElem?_methods_forwarder {k : Nat} {m : Planned}
    (h : o.plan.members[k]? = some m) : o.methods[2 + k]? = some (Forwarder.method o m) := by
  have hk := (List.getElem?_eq_some_iff.1 h).1
  unfold methods
  rw [List.append_assoc, List.append_assoc, List.getElem?_append_right (by simp),
    List.getElem?_append_left (by simpa using hk), List.getElem?_map]
  simp [h]

/-- A helper is one of the methods. -/
theorem Outline.mem_methods_helper {m : Planned} {draft : MethodDraft} (hm : m ∈ o.plan.members)
    (h : Dispatcher.helper o m = some draft) : draft ∈ o.methods :=
  List.mem_append_right _ (List.mem_filterMap.2 ⟨m, hm, h⟩)

end Proxy

end ProxyForge
