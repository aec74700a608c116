import ProxyForge.Proofs.Frame.StackMap
import ProxyForge.Proofs.Proxy.Modest
import ProxyForge.Proofs.Proxy.Reaching
import ProxyForge.Proofs.Run.Blocks
import ProxyForge.Proofs.Run.Heights
/-!
# Ids lead to their members

The code of `dispatch`, read back from a generated class and run. Its switch has a case for each
planned member and no other one, and the case of a member leads to the code that reaches it
(`Dispatcher.Routes`). The call of a superclass's method finds its operands, because the frames
that were inferred for `dispatch` know the height of the stack (`Dispatcher.callable`).
-/

namespace ProxyForge

namespace Proxy

open Code (Block Body ClassDraft Context Label LaidOut MethodHeader Op Program TypeState
  VerifierInfo)
open Outcome
open Run (Call Ending State Steps Value Written codeFrom passed select select_of_mem
  select_of_not_mem unboxings)

namespace Dispatcher

variable {o : Outline} {m : Planned} {header : MethodHeader} {p : Program} {l : Code.Layout}
  {c : Context} {entry : TypeState} {known : Nat → TypeState}

/-! ## Superclass calls find their operands -/

/-- An instruction that names no place is resolved to itself. -/
theorem eq_of_resolve {ε : Type} {place : Label → Except ε Nat} {op op' : Op Label}
    (htargets : op.targets = []) (h : op.resolve place = .ok op') : op' = op := by
  cases op with
  | jump kind target | lookupSwitch fallback cases => cases htargets
  | _ =>
    cases h
    rfl

/-- The instruction at a position of a body, resolved. -/
theorem exists_resolved {body : Body} (hresolve : body.resolve = .ok p) {k : Nat} {op : Op Label}
    (hop : body.ops[k]? = some op) : ∃ op', p.ops[k]? = some op' ∧
      op.resolve (Body.jumpTarget body.positions body.ops.length k) = .ok op' := by
  obtain ⟨hsize, hops⟩ := Body.resolve_ops hresolve
  have hlt : k < p.ops.size := by
    rw [hsize]
    exact (List.getElem?_eq_some_iff.1 hop).1
  obtain ⟨op₀, hop₀, hresolved⟩ := hops k _ (Array.getElem?_eq_getElem hlt)
  cases hop.symm.trans hop₀
  exact ⟨_, Array.getElem?_eq_getElem hlt, hresolved⟩

/-- An instruction that names no place stands in the program as it is. -/
theorem getElem?_of_targets {body : Body} (hresolve : body.resolve = .ok p) {k : Nat}
    {op : Op Label} (hop : body.ops[k]? = some op) (htargets : op.targets = []) :
    p.ops[k]? = some op := by
  obtain ⟨op', hop', hresolved⟩ := exists_resolved hresolve hop
  rwa [eq_of_resolve htargets hresolved] at hop'

/-- The front of a block stands in the program as it is, if it names no places. -/
theorem getElem?_block {body : Body} (hresolve : body.resolve = .ok p) (pre : List Block)
    {b : Block} {post : List Block} (hlines : body.lines = Block.linesOf (pre ++ b :: post))
    {front back : List (Op Label)} (hb : b.ops = front ++ back) (hfront : front.all Op.isOrdinary)
    {k : Nat} {op : Op Label} (hop : front[k]? = some op) :
    p.ops[Block.size pre + k]? = some op := by
  refine getElem?_of_targets hresolve ?_
    (Op.targets_of_isOrdinary (List.all_eq_true.1 hfront op (List.mem_of_getElem? hop)))
  rw [Block.ops_eq hlines, Block.opsOf_append, Block.opsOf_cons, hb, Block.size,
    List.getElem?_append_right (Nat.le_add_right _ _), Nat.add_sub_cancel_left, List.append_assoc,
    List.getElem?_append_left (List.getElem?_eq_some_iff.1 hop).1]
  exact hop

/-- What the switch asks for. -/
def idCall (b : Bindings) (member : Value) : Call :=
  ⟨.virtual, telling b, [member]⟩

theorem steps_id (o : Outline) (self receiver member arguments : Value) :
    Steps [self, receiver, member, arguments]
      [.load .reference 2, .invoke .virtual (telling o.bindings)] .start
      ⟨[(idCall o.bindings member).result], [idCall o.bindings member]⟩ := by
  have hcall : Steps [self, receiver, member, arguments]
      [.invoke .virtual (telling o.bindings)] ⟨[member].reverse ++ [], []⟩ _ :=
    Steps.invoke nofun (parse_telling o.bindings) rfl
  rw [if_neg nofun] at hcall
  exact (Steps.load rfl).front hcall

/-- **Where the switch leads, the stack is empty.** -/
theorem height_member (hplan : Plan.Numbered o.plan.members)
    (hresolve : (dispatchBody o).resolve = .ok p) (hops : c.ops = p.ops)
    (hk : c.Typing entry known) (hentry : entry.stack = []) {b : Block}
    (hb : b ∈ servingBlocks o) {pre post : List Block}
    (hsplit : switchBlock o :: servingBlocks o = pre ++ b :: post) :
    (known (Block.size pre)).stack.length = 0 := by
  have hlines := dispatchBody_lines o
  have hfirst : (known 0).stack.length = 0 := by
    rw [← hk.entry_le.stack.length_eq, hentry]
    rfl
  -- in front of the switch there is the id that was asked for
  have hswitch : (dispatchBody o).ops[2]? = some (switchOp o) := by
    rw [Block.ops_eq hlines]
    rfl
  obtain ⟨op', hop', hresolved⟩ := exists_resolved hresolve hswitch
  rw [← hops] at hop'
  have hasked : (known (0 + 2)).stack.length = 1 := by
    refine Run.height_of_steps hk (fun k op hop => ?_) ?_
      (steps_id o (.given 0) (.given 1) (.given 2) (.given 3)) hfirst
    · rw [hops]
      exact getElem?_block hresolve [] hlines (switchBlock_ops o) rfl hop
    · exact (Array.getElem?_eq_some_iff.1 hop').1
  -- the switch takes it
  obtain ⟨label, htarget, hlabel⟩ := exists_target hb
  have hposition : (dispatchBody o).positions[label]? = some (Block.size pre) :=
    Block.positions_label (hsplit ▸ hlines) (hsplit ▸ nodup_labelsOf hplan) hlabel
  obtain ⟨k, hk'⟩ := List.mem_iff_getElem?.1 htarget
  obtain ⟨j, hj, hplace⟩ := getElem?_of_forall₂ (Op.resolve_targets hresolved).flip hk'
  obtain ⟨hbound, hlt⟩ := Body.jumpTarget_ok hplace
  cases hposition.symm.trans hbound
  obtain ⟨after, hafter, harrives⟩ := hk.step 2 op' hop'
  have hle := harrives _ after (.jump hop' (List.mem_of_getElem? hj))
    (by rw [hops, (Body.resolve_ops hresolve).1]; exact hlt)
  obtain ⟨fallback, -, hrest⟩ := bind_eq_ok.1 hresolved
  obtain ⟨cases', -, hresult⟩ := bind_eq_ok.1 hrest
  cases hresult
  have hdrop := TypeState.length_dropKind (hafter : (known 2).dropKind .int = .ok after)
  rw [← hle.stack.length_eq]
  rw [Nat.zero_add] at hasked
  omega

/-- The code for a member of the superclass: the operands of the call, and the call. -/
def superOps (o : Outline) (m : Planned) : List (Op Label) :=
  (.load .reference 0 :: Boxing.unpackParams m.signature.params 3) ++
    [Boxing.call .special o.superName m.signature.name m.signature.descriptor]

theorem reach_eq (horigin : m.origin ≠ .interface) : reach o m =
    superOps o m ++ (Boxing.boxResult m.signature.result ++ [.ret (some .reference)]) := by
  rw [reach_inherited o horigin]
  exact List.append_assoc _ _ _

theorem all_superOps (o : Outline) (m : Planned) : (superOps o m).all Op.isOrdinary := by
  rw [superOps, List.all_append, List.all_cons, Boxing.all_unpackParams]
  rfl

/-- **The call for a member finds its operands.** -/
theorem callable (hplan : Plan.Numbered o.plan.members)
    (hresolve : (dispatchBody o).resolve = .ok p) (hops : c.ops = p.ops)
    (hk : c.Typing entry known) (hentry : entry.stack = []) (hm : m ∈ o.plan.members)
    (hparams : ∀ t ∈ m.signature.params, t ≠ .void) (horigin : m.origin ≠ .interface) :
    Callable m := by
  have hmem := memberBlock_mem (o := o) (mem_byId.2 hm)
  obtain ⟨pre, post, hsplit⟩ := List.append_of_mem (List.mem_cons_of_mem (switchBlock o) hmem)
  have hcode : ∀ (k : Nat) (op : Op Label), (superOps o m)[k]? = some op →
      c.ops[Block.size pre + k]? = some op := fun k op hop =>
    hops ▸ getElem?_block hresolve pre (hsplit ▸ dispatchBody_lines o) (b := memberBlock o m)
      (reach_eq horigin) (all_superOps o m) hop
  -- the call stands behind the operands
  have hcall := hcode _ _ List.getElem?_concat_length
  have hsteps := steps_operands (.given 0) (.given 1) (.given 2) (.given 3) hparams
  have hoperands := Run.height_of_steps hk (fun k op hop => hcode k op (by
      rwa [superOps, List.getElem?_append_left (List.getElem?_eq_some_iff.1 hop).1]))
    (Array.getElem?_eq_some_iff.1 hcall).1
    hsteps
    (height_member hplan hresolve hops hk hentry hmem hsplit)
  obtain ⟨params, result, hparse, hcount⟩ := hk.operands hcall
  rw [hoperands] at hcount
  obtain ⟨hle, hvoid⟩ := JvmType.arity_of_methodDescriptor hparams hparse
  refine ⟨params, result, hparse, Nat.le_antisymm ?_ hle, hvoid⟩
  simpa [State.operandCount, passed] using hcount

/-- The calls for members find their operands if `dispatch` is laid out with its frames. -/
theorem callable_of_laidOut (hplan : Plan.Numbered o.plan.members)
    (hl : LaidOut header (dispatchBody o) p l) {b b' : PoolBuilder} {info : VerifierInfo}
    (hinfo : VerifierInfo.ofProgram header p l.offsets b = .ok info b')
    (hm : m ∈ o.plan.members) (hparams : ∀ t ∈ m.signature.params, t ≠ .void)
    (horigin : m.origin ≠ .interface) : Callable m := by
  obtain ⟨e, s, hf⟩ := Code.framed_of_ofProgram hl hinfo
  have hk := (hl.inferred_max hf.entry hf.size_pos hf.infer).typing
  exact callable hplan hl.resolve rfl hk (by rw [TypeState.entry_ok hf.entry]) hm hparams horigin

/-! ## The switch -/

/-- **Code that routes ids to members**, in a class of a name below a superclass: what it asks for,
which cases its switch has, and what runs from where a case leads. -/
structure Routes (thisName superName : String) (b : Bindings) (members : List Planned)
    (pool : Pool) (is : List Instruction) (fallback : Nat) (cases : List (Int32 × Nat)) : Prop where
  /-- The switch is on the id of the member. -/
  asks : ∀ self receiver member arguments : Value,
    Run.run pool [self, receiver, member, arguments] is .start =
      some ([idCall b member], .switched (idCall b member).result fallback cases)
  ascending : cases.Pairwise fun a b => a.1 < b.1
  keys : (cases.map Prod.fst).Perm (members.map fun m => m.id)
  /-- The id of a member leads to the code that reaches it. -/
  reaches : ∀ m ∈ members, ∀ self receiver member arguments : Value,
    Run.run pool [self, receiver, member, arguments]
        (codeFrom (select fallback cases m.id) is) .start =
      some (reached thisName superName m self receiver arguments)
  /-- Different members lead to different code. -/
  apart : ∀ m ∈ members, ∀ m' ∈ members,
    select fallback cases m.id = select fallback cases m'.id → m = m'
  /-- Every other id is refused. -/
  refuses : ∀ id, (∀ m ∈ members, m.id ≠ id) → ∀ locals : List Value,
    Run.run pool locals (codeFrom (select fallback cases id) is) .start =
      some (refused (select fallback cases id))

/-- **What is written for `dispatch` routes ids to members.** -/
theorem routes_of_written (hplan : Plan.Numbered o.plan.members)
    (hparams : ∀ m ∈ o.plan.members, ∀ t ∈ m.signature.params, t ≠ .void)
    (hcallable : ∀ m ∈ o.plan.members, m.origin ≠ .interface → Callable m) {pool : Pool}
    {offsets : Array Nat} {is : List Instruction}
    (h : Written pool (dispatchBody o) offsets (switchBlock o :: servingBlocks o) is) :
    ∃ fallback cases,
      Routes o.thisName o.superName o.bindings o.plan.members pool is fallback cases := by
  -- the switch stands behind the call for the id
  have hops := h.ops
  rw [Block.opsOf_cons] at hops
  obtain ⟨front, back, rfl, hfront, hback⟩ := exists_append_of_forall₂ hops
  rw [switchBlock_ops] at hfront
  obtain ⟨asking, last, rfl, hasking, hlast⟩ := Run.exists_last hfront
  obtain ⟨fallback, cases, hread, hfallback, hascending, hperm⟩ :=
    Instruction.symbolic_lookupSwitch hlast
  -- its cases, with the offsets of labels
  have hcase : ∀ m ∈ o.plan.members, ∃ target,
      (dispatchBody o).offsetOf offsets (memberLabel m) = some target ∧
        select fallback cases m.id = target := by
    intro m hm
    obtain ⟨i, code, rest, hoffset, -⟩ :=
      h.codeFrom_label (List.mem_cons_of_mem _ (memberBlock_mem (o := o) (mem_byId.2 hm))) rfl
    have hmem := hperm.mem_iff.2 (List.mem_map_of_mem
      (List.mem_map_of_mem (f := fun p => (p.id, memberLabel p)) (mem_byId.2 hm)))
    obtain ⟨⟨key, target⟩, hcase, heq⟩ := List.mem_map.1 hmem
    obtain ⟨rfl, htarget⟩ := Prod.mk.inj heq
    exact ⟨target, htarget.symm, select_of_mem hascending hcase⟩
  have hkeys : (cases.map Prod.fst).Perm (o.plan.members.map fun m => m.id) := by
    have hfst := hperm.map Prod.fst
    simp only [List.map_map, Function.comp_def, switchCases] at hfst
    exact hfst.trans ((List.mergeSort_perm _ _).map _)
  refine ⟨fallback, cases, ?_, hascending, hkeys, fun m hm => ?_, fun m hm m' hm' heq => ?_,
    fun id hid locals => ?_⟩
  · intro self receiver member arguments
    rw [List.append_assoc, List.singleton_append]
    exact Run.run_ends (steps_id o self receiver member arguments) hasking hread rfl
  · intro self receiver member arguments
    obtain ⟨target, htarget, hselect⟩ := hcase m hm
    obtain ⟨i, code, rest, hoffset, hcode, hwritten⟩ :=
      h.codeFrom_label (List.mem_cons_of_mem _ (memberBlock_mem (o := o) (mem_byId.2 hm))) rfl
    cases htarget.symm.trans hoffset
    rw [hselect, hcode]
    exact run_reach hwritten (hparams m hm) (hcallable m hm)
  · obtain ⟨target, htarget, rfl⟩ := hcase m hm
    obtain ⟨target', htarget', rfl⟩ := hcase m' hm'
    have hlabels := labelsOf_blocks o
    have hmem : ∀ q ∈ o.plan.members,
        memberLabel q ∈ Block.labelsOf (switchBlock o :: servingBlocks o) := fun q hq => by
      rw [hlabels]
      exact List.mem_append_left _ (List.mem_map_of_mem (mem_byId.2 hq))
    have hsame := h.eq_of_offsetOf (hmem m hm) (hmem m' hm')
      (htarget.trans ((congrArg some heq).trans htarget'.symm))
    exact List.inj_on_of_nodup_map hplan.slots hm hm' (memberLabel_injective hsame)
  · have hother : select fallback cases id = fallback := select_of_not_mem fun hmem => by
      obtain ⟨m, hm, rfl⟩ := List.mem_map.1 (hkeys.mem_iff.1 hmem)
      exact hid m hm rfl
    obtain ⟨i, code, rest, hoffset, hcode, hwritten⟩ :=
      h.codeFrom_label (List.mem_cons_of_mem _ (unknownBlock_mem o)) rfl
    cases hfallback.symm.trans hoffset
    rw [hother, hcode]
    exact run_unknown hwritten

end Dispatcher

/-! ## Generated classes -/

variable {g : Generator} {blueprint : Blueprint} {a : Artifact}

/-- `dispatch` stands behind the forwarders. -/
theorem Outline.getElem?_methods_dispatch (o : Outline) :
    o.methods[2 + o.plan.members.length]? = some (Dispatcher.dispatch o) := by
  have hlength : ([Initializer.classInitializer o, Initializer.constructor o] ++
      o.plan.members.map (Forwarder.method o)).length = 2 + o.plan.members.length := by
    rw [List.length_append, List.length_map]
    rfl
  unfold methods
  rw [← hlength, List.append_assoc, List.getElem?_append_right (Nat.le_refl _), Nat.sub_self]
  rfl

/-- **Dispatch routes every id to its own member.** In a generated class whose texts fit into
constants, the method behind the forwarders is `dispatch`, and its code routes the ids of the
planned members. -/
theorem dispatch_routes (h : generate g blueprint = .ok a)
    (hparams : ∀ m ∈ a.members, ∀ t ∈ m.signature.params, t ≠ .void)
    (htexts : ∀ file, blueprint.classFile g = .ok file → file.pool.TextsFit) :
    ∃ c superName member code is fallback cases,
      ClassFile.ofBytes a.bytes = .ok c ∧
      c.thisName = .ok (Name.toInternal blueprint.name) ∧ c.superName = .ok (some superName) ∧
      c.methods[2 + a.members.length]? = some member ∧
      c.memberName member = .ok "dispatch" ∧
      c.memberDescriptor member = .ok (callType g.bindings) ∧
      c.code member = .ok (some code) ∧ Instruction.decodeAll code.code = .ok is ∧
      Dispatcher.Routes (Name.toInternal blueprint.name) superName g.bindings a.members c.pool is
        fallback cases := by
  obtain ⟨o, file, b, houtline, hrun, hfile, hmembers, hbytes⟩ := generate_ok h
  obtain ⟨hplan, hbindings, -, hthis, -⟩ := outline_eq_ok houtline
  have hnumbered := Plan.numbered_of_ofSurface hplan
  obtain ⟨hread, hpool, hshown, hmethods⟩ := Outline.read_back hrun (htexts file hfile)
  rw [hmembers] at hparams ⊢
  obtain ⟨member, hmember, b₀, b₁, hparts, hgrows⟩ :=
    getElem?_of_forall₂ hmethods.flip o.getElem?_methods_dispatch
  have hfits := hparts.fits hgrows (hpool ▸ htexts file hfile) fun body hbody =>
    Outline.fewLabels (List.mem_of_getElem? o.getElem?_methods_dispatch) hbody
  obtain ⟨i, b₂, j, b₃, hname, hdescriptor, code, p, l, b₄, info, b₅, hcode, hprogram, hlayout,
    hinfo, hlater, -, -, hbody, -⟩ := hparts.code (c := file) hgrows hpool hfits rfl
  obtain ⟨is, hdecode, hwritten⟩ := Run.written_of_laidOut (Dispatcher.dispatchBody_lines o)
    (Dispatcher.nodup_labelsOf hnumbered) (by
      intro b hb
      rcases List.mem_cons.1 hb with rfl | hb
      · exact List.cons_ne_nil _ _
      · exact Dispatcher.serving_nonempty hb) hprogram hlayout hlater
  have hl : LaidOut ((Dispatcher.dispatch o).shape o.thisName) (Dispatcher.dispatchBody o) p l :=
    ⟨hprogram, _, _, hlayout⟩
  obtain ⟨fallback, cases, hroutes⟩ := Dispatcher.routes_of_written hnumbered hparams
    (fun m hm => Dispatcher.callable_of_laidOut hnumbered hl hinfo hm (hparams m hm)) hwritten
  rw [hthis, hbindings] at hroutes
  have hdeclared := hparts.declared (c := file) hgrows hpool hfits
  exact ⟨file, o.superName, member, code, is, fallback, cases, hbytes ▸ hread,
    hthis ▸ hshown.thisName, hshown.superName, hmember, hdeclared.name,
    hbindings ▸ hdeclared.descriptor, hcode, hbody ▸ hdecode, hpool ▸ hroutes⟩

/-- A class with members of every origin, whose ids do not ascend in the order of its plan. -/
theorem dispatch_routes_adder : ∃ a, generate lengthwise adder = .ok a ∧
    (∀ m ∈ a.members, ∀ t ∈ m.signature.params, t ≠ .void) ∧
    (∀ file, adder.classFile lengthwise = .ok file → file.pool.TextsFit) ∧
    ∃ c superName is fallback cases, ClassFile.ofBytes a.bytes = .ok c ∧
      c.superName = .ok (some superName) ∧
      Dispatcher.Routes (Name.toInternal "demo.Adder$") superName lengthwise.bindings a.members
        c.pool is fallback cases := by
  obtain ⟨a, ha, htexts⟩ := generate_adder
  have hparams : ∀ m ∈ a.members, ∀ t ∈ m.signature.params, t ≠ .void := by
    rw [members_adder ha]
    exact fun m hm t ht => of_decide_eq_true
      (Bool.and_eq_true_iff.1 ((typed_adder.members m hm).params t ht)).1
  obtain ⟨c, superName, member, code, is, fallback, cases, hread, -, hsuper, -, -, -, -, -,
    hroutes⟩ := dispatch_routes ha hparams htexts
  exact ⟨a, ha, hparams, htexts, c, superName, is, fallback, cases, hread, hsuper, hroutes⟩

end Proxy

end ProxyForge
