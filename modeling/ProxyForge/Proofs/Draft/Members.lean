import ProxyForge.Proofs.Draft.Attributes
import ProxyForge.Proofs.Frame.StackMap
import ProxyForge.Proofs.Layout.Decoding
/-!
# Methods that were added

The code of a method is the layout of its body with the frames that were inferred for it, and its
exception table names the offsets of the body's labels (`CodeShown`). A method is read back from
the class file with its code and its declared exceptions (`MethodShown`), in every later pool.
-/

namespace ProxyForge

open Outcome Decoder

namespace Outcome

/-- Lists that are related through a third one. -/
theorem forall₂_comp {α β γ : Type} {R : α → β → Prop} {S : β → γ → Prop} {T : α → γ → Prop}
    {xs : List α} {ys : List β} {zs : List γ} (h : ∀ x y z, R x y → S y z → T x z)
    (hxy : List.Forall₂ R xs ys) (hyz : List.Forall₂ S ys zs) : List.Forall₂ T xs zs := by
  induction hxy generalizing zs with
  | nil =>
    cases hyz
    exact .nil
  | cons hr _ ih =>
    cases hyz with
    | cons hs hrest => exact .cons (h _ _ _ hr hs) (ih hrest)

end Outcome

namespace Code

variable {m : MethodHeader} {body : Body} {p : Program} {l : Layout} {info : VerifierInfo}
  {b b' later : PoolBuilder} {name : String}

/-! ## Positions of labels -/

namespace Body

theorem positionsFrom_le {position : Nat} {bound : Std.HashMap Label Nat} {lines : List Line}
    {limit : Nat} (hbound : ∀ (label i : Nat), bound[label]? = some i → i ≤ limit)
    (hlimit : position + (opsOf lines).length ≤ limit) (label i : Nat)
    (h : (positionsFrom position bound lines)[label]? = some i) : i ≤ limit := by
  induction lines generalizing position bound with
  | nil => exact hbound label i h
  | cons line lines ih =>
    cases line with
    | op op =>
      have hcount : (opsOf (.op op :: lines)).length = (opsOf lines).length + 1 := rfl
      exact ih hbound (by omega) h
    | mark other =>
      have hcount : (opsOf (.mark other :: lines)).length = (opsOf lines).length := rfl
      refine ih (fun label' i' h' => ?_) (by omega) h
      rw [Std.HashMap.getElem?_insert] at h'
      split at h'
      · cases h'
        omega
      · exact hbound label' i' h'

/-- A label is bound to an instruction, or to the end. -/
theorem position_le {label i : Nat} (h : body.positions[label]? = some i) :
    i ≤ body.ops.length :=
  positionsFrom_le (fun _ _ h => by simp at h) (by rw [Nat.zero_add]; exact Nat.le_refl _) label i h

end Body

namespace Layout

/-- The code of a layout has at most as many bytes as a method may have. -/
theorem length_code_le (h : ofProgram name p b = .ok l b') : l.code.length ≤ 65535 := by
  obtain ⟨is, -, hoffsets, -⟩ := decodeAll_ofProgram h
  have hlast : offsetAt l.offsets is.length = l.code.length := by
    rw [offsetAt, Array.getD_eq_getD_getElem?, ← Array.getElem?_toList, hoffsets]
    simp
  rw [← hlast]
  exact (measured_of_ofProgram h).1.le_limit _

/-- **Where a label stands**: two bytes say it. -/
theorem offsetOf_eq (hresolve : body.resolve = .ok p) (h : ofProgram name p b = .ok l b')
    {label i : Nat} (hlabel : body.positions[label]? = some i) :
    body.offsetOf l.offsets label = some (UInt16.ofNat (offsetAt l.offsets i)).toNat := by
  obtain ⟨hmeasured, hlen⟩ := measured_of_ofProgram h
  have hle := Body.position_le hlabel
  have hsize := (Body.resolve_ops hresolve).1
  have hlt : i < l.offsets.size := by
    rw [hmeasured.size]
    omega
  have hfits : (UInt16.ofNat (offsetAt l.offsets i)).toNat = offsetAt l.offsets i := by
    rw [UInt16.toNat_ofNat']
    exact Nat.mod_eq_of_lt (Nat.lt_succ_of_le (hmeasured.le_limit i))
  rw [hfits, Body.offsetOf, hlabel, Option.bind_some, offsetAt, Array.getElem?_eq_getElem hlt,
    Array.getElem_eq_getD 0]

end Layout

/-! ## Exception tables -/

/-- **An entry of the exception table** stands for a handler of the body: it names the offsets of
its labels, and the class that is caught. -/
structure HandlerShown (pool : Pool) (body : Body) (offsets : Array Nat) (h : Handler Label)
    (entry : HandlerEntry) : Prop where
  start : body.offsetOf offsets h.start = some entry.start.toNat
  stop : body.offsetOf offsets h.stop = some entry.stop.toNat
  handler : body.offsetOf offsets h.handler = some entry.handler.toNat
  any : h.caught = none → entry.catchType = 0
  caught : ∀ name, h.caught = some name → pool.className entry.catchType = .ok name

/-- What is written of a handler. -/
theorem ClassDraft.handlerEntry_ok {offsets : Array Nat} {h : Handler Nat} {entry : HandlerEntry}
    (hentry : ClassDraft.handlerEntry offsets h b = .ok entry b') :
    entry.start = UInt16.ofNat (Layout.offsetAt offsets h.start) ∧
      entry.stop = UInt16.ofNat (Layout.offsetAt offsets h.stop) ∧
      entry.handler = UInt16.ofNat (Layout.offsetAt offsets h.handler) ∧
      (h.caught = none → entry.catchType = 0) ∧
      ∀ name, h.caught = some name → b'.pool.className entry.catchType = .ok name := by
  unfold ClassDraft.handlerEntry at hentry
  dsimp only at hentry
  cases hcaught : h.caught with
  | none =>
    rw [hcaught] at hentry
    cases hentry
    exact ⟨rfl, rfl, rfl, fun _ => rfl, nofun⟩
  | some name =>
    rw [hcaught] at hentry
    obtain ⟨i, b₁, hclass, hresult⟩ := bind_run_ok.1 hentry
    cases hresult
    refine ⟨rfl, rfl, rfl, nofun, fun name' hname' => ?_⟩
    cases hname'
    exact (Interner.classRef_ok hclass).2

/-- **The exception table** has an entry for each handler, in their order. -/
theorem handlersShown (hresolve : body.resolve = .ok p)
    (hlayout : Layout.ofProgram name p b = .ok l b') {b₁ b₂ : PoolBuilder}
    {entries : List HandlerEntry}
    (h : p.handlers.mapM (ClassDraft.handlerEntry l.offsets) b₁ = .ok entries b₂)
    (hlater : b₂.Grows later) :
    entries.length = p.handlers.length ∧
      List.Forall₂ (HandlerShown later.pool body l.offsets) body.handlers entries := by
  obtain ⟨ops, -, hrest⟩ := bind_eq_ok.1 hresolve
  obtain ⟨handlers, hhandlers, hresult⟩ := bind_eq_ok.1 hrest
  have hsame : p.handlers = handlers := by
    cases hresult
    rfl
  have hentries := (Interner.mapM_ok
    (R := fun b (h : Handler Nat) (entry : HandlerEntry) =>
      entry.start = UInt16.ofNat (Layout.offsetAt l.offsets h.start) ∧
      entry.stop = UInt16.ofNat (Layout.offsetAt l.offsets h.stop) ∧
      entry.handler = UInt16.ofNat (Layout.offsetAt l.offsets h.handler) ∧
      (h.caught = none → entry.catchType = 0) ∧
      ∀ name, h.caught = some name → b.pool.className entry.catchType = .ok name)
    (fun hg hr => ⟨hr.1, hr.2.1, hr.2.2.1, hr.2.2.2.1, fun name hname =>
      hg.className (hr.2.2.2.2 name hname)⟩)
    (fun _ he => ⟨((ClassDraft.extending_handlerEntry _ _).of_ok he).grows,
      ClassDraft.handlerEntry_ok he⟩) h).2
  refine ⟨hentries.length_eq.symm, ?_⟩
  rw [hsame] at hentries
  refine forall₂_comp (fun h h' entry hr he => ?_) (mapM_eq_ok hhandlers) hentries
  obtain ⟨hstart, hstop, hhandler, hcaught⟩ := Body.resolveHandler_ok hr
  obtain ⟨hestart, hestop, hehandler, hany, hclass⟩ := he
  refine ⟨?_, ?_, ?_, fun hnone => hany (hcaught.trans hnone), fun name hname =>
    hlater.className (hclass name (hcaught.trans hname))⟩
  · rw [hestart]
    exact Layout.offsetOf_eq hresolve hlayout hstart
  · rw [hestop]
    exact Layout.offsetOf_eq hresolve hlayout hstop
  · rw [hehandler]
    exact Layout.offsetOf_eq hresolve hlayout hhandler

/-! ## Code -/

/-- **The code of a method**, started on a pool: the layout of its body, with the heights, the
exception table and the frames that go with it. -/
def CodeShown (pool : Pool) (m : MethodHeader) (body : Body) (b : PoolBuilder) (code : CodeBody) :
    Prop :=
  ∃ (p : Program) (l : Layout) (b₁ : PoolBuilder) (info : VerifierInfo) (b₂ : PoolBuilder),
    body.program m.name = .ok p ∧ Layout.ofProgram m.name p b = .ok l b₁ ∧
    VerifierInfo.ofProgram m p l.offsets b₁ = .ok info b₂ ∧
    code.maxStack = info.maxStack ∧ code.maxLocals = info.maxLocals ∧ code.code = l.code ∧
    List.Forall₂ (HandlerShown pool body l.offsets) body.handlers code.handlers ∧
    code.frames pool = .ok info.frames

/-- **The sizes that a method may have**: what it uses of local variables, and what its parameters
take of them, fits into two bytes. -/
def SlotsFit (m : MethodHeader) (body : Body) : Prop :=
  (∀ op ∈ body.ops, op.reach ≤ 65535) ∧
    ∀ e, TypeState.entry m = .ok e → e.locals.length ≤ 65535

/-- The frames that are inferred for a method of such sizes are read back. -/
theorem decodeTable_ofProgram (hl : LaidOut m body p l)
    (h : VerifierInfo.ofProgram m p l.offsets b = .ok info b') (hslots : SlotsFit m body) :
    Frame.decodeTable (Frame.encodeTable info.frames) = .ok info.frames := by
  obtain ⟨e, s, hf⟩ := framed_of_ofProgram hl h
  have hlocals := hslots.2 e hf.entry
  have hinferred := hl.inferred hf.entry (hl.reachesBelow hslots.1) hf.size_pos hf.infer hlocals
    (by omega)
  refine Frame.decodeTable_encodeTable (le_trans hf.length_frames_le hl.size_le)
    (hf.wellFormed fun i hi => ⟨(hinferred.admits hi).locals, ?_⟩)
  exact le_trans (hinferred.height_lt hi).le hl.size_le

/-- The bytes of an attribute are part of those of the code that it belongs to. -/
theorem CodeBody.length_attribute_le {code : CodeBody} {a : Attribute} (ha : a ∈ code.attributes) :
    a.body.length ≤ code.encode.length := by
  have hbody : a.body.length ≤ a.encode.length := by
    rw [Attribute.encode, List.length_append]
    exact Nat.le_add_left _ _
  obtain ⟨front, back, hsplit⟩ := List.append_of_mem ha
  have hcode : a.encode.length ≤ code.encode.length := by
    rw [ProxyForge.CodeBody.encode, List.length_append, Attribute.encodeAll, hsplit,
      List.flatMap_append, List.flatMap_cons]
    simp only [List.length_append]
    omega
  exact Nat.le_trans hbody hcode

/-- What a code attribute is assembled from: the layout of a program, its frames, and the entries of
its handlers. -/
theorem ClassDraft.codeAttribute_parts {a : Attribute}
    (h : ClassDraft.codeAttribute m body b = .ok a b') :
    ∃ p l b₁ info b₂ handlers b₃ attributes b₄, body.program m.name = .ok p ∧
      Layout.ofProgram m.name p b = .ok l b₁ ∧
      VerifierInfo.ofProgram m p l.offsets b₁ = .ok info b₂ ∧ p.handlers.length ≤ 65535 ∧
      p.handlers.mapM (handlerEntry l.offsets) b₂ = .ok handlers b₃ ∧
      stackMap info.frames b₃ = .ok attributes b₄ ∧
      attributeOf Attribute.codeName (ProxyForge.CodeBody.encode
        ⟨info.maxStack, info.maxLocals, l.code, handlers, attributes⟩) b₄ = .ok a b' := by
  obtain ⟨p, b₀, hlift, h₁⟩ := bind_run_ok.1 h
  obtain ⟨hprogram, rfl⟩ := Interner.lift_ok hlift
  obtain ⟨l, b₁, hlayout, h₂⟩ := bind_run_ok.1 h₁
  obtain ⟨info, b₂, hinfo, h₃⟩ := bind_run_ok.1 h₂
  obtain ⟨count, b₃, hcount, h₄⟩ := bind_run_ok.1 h₃
  obtain ⟨hle, -, rfl⟩ := Interner.count16_ok hcount
  obtain ⟨handlers, b₄, hhandlers, h₅⟩ := bind_run_ok.1 h₄
  obtain ⟨attributes, b₅, hattributes, ha⟩ := bind_run_ok.1 h₅
  exact ⟨p, l, b₁, info, _, handlers, b₄, attributes, b₅, hprogram, hlayout, hinfo, hle, hhandlers,
    hattributes, ha⟩

/-- **The parts of a code attribute.** It is read back if its bytes can be counted, and its frames
are if their table is. -/
theorem ClassDraft.codeAttribute_ok {a : Attribute}
    (h : ClassDraft.codeAttribute m body b = .ok a b') (hlater : b'.Grows later)
    (hfits : a.Fits) :
    later.pool.utf8 a.nameIndex = .ok Attribute.codeName ∧
      ∃ (code : CodeBody) (p : Program) (l : Layout) (b₁ : PoolBuilder) (info : VerifierInfo)
        (b₂ : PoolBuilder), CodeBody.ofBytes a.body = .ok code ∧
        body.program m.name = .ok p ∧ Layout.ofProgram m.name p b = .ok l b₁ ∧
        VerifierInfo.ofProgram m p l.offsets b₁ = .ok info b₂ ∧ b₁.Grows later ∧
        code.maxStack = info.maxStack ∧ code.maxLocals = info.maxLocals ∧ code.code = l.code ∧
        List.Forall₂ (HandlerShown later.pool body l.offsets) body.handlers code.handlers ∧
        (Frame.decodeTable (Frame.encodeTable info.frames) = .ok info.frames →
          code.frames later.pool = .ok info.frames) := by
  obtain ⟨p, l, b₁, info, b₂, handlers, b₃, attributes, b₄, hprogram, hlayout, hinfo, hcount,
    hhandlers, hattributes, ha⟩ := codeAttribute_parts h
  obtain ⟨hbody, hname⟩ := attributeOf_ok ha
  -- each pool on the way grows to the later one
  have hgrows₄ : b₄.Grows later := ((extending_attributeOf _ _).of_ok ha).grows.trans hlater
  have hgrows₃ := ((extending_stackMap _).of_ok hattributes).grows.trans hgrows₄
  have hgrows₂ := ((Interner.Extending.mapM (extending_handlerEntry _) _).of_ok
    hhandlers).grows.trans hgrows₃
  have hgrows₁ := ((VerifierInfo.extending_ofProgram _ _ _).of_ok hinfo).grows.trans hgrows₂
  have hresolve : body.resolve = .ok p := mapError_eq_ok.1 hprogram
  obtain ⟨hlength, hshown⟩ := handlersShown hresolve hlayout hhandlers hgrows₃
  obtain ⟨hone, hframes⟩ := stackMap_ok hattributes hgrows₄
  have hcode : (⟨info.maxStack, info.maxLocals, l.code, handlers, attributes⟩ :
      ProxyForge.CodeBody).Fits := by
    refine ⟨Nat.lt_of_le_of_lt (Layout.length_code_le hlayout) (by decide), hlength ▸ hcount,
      Nat.le_trans hone.length_le (by decide), fun a' ha' => ?_⟩
    refine Nat.lt_of_le_of_lt (CodeBody.length_attribute_le ha') ?_
    exact hbody ▸ hfits
  refine ⟨hname later hlater, ⟨info.maxStack, info.maxLocals, l.code, handlers, attributes⟩, p, l,
    b₁, info, b₂, ?_, hprogram, hlayout, hinfo, hgrows₁, rfl, rfl, rfl, hshown,
    fun hread => hframes hread _ rfl⟩
  rw [hbody]
  exact CodeBody.ofBytes_encode hcode

/-! ## Fields and methods -/

/-- **A field as the class file has it.** -/
structure FieldShown (c : ClassFile) (access : UInt16) (name descriptor : String)
    (member : Member) : Prop where
  access : member.access = access
  name : c.memberName member = .ok name
  descriptor : c.memberDescriptor member = .ok descriptor
  attributes : member.attributes = []

/-- **A method as the class file declares it.** -/
structure MethodDeclared (c : ClassFile) (access : UInt16) (name descriptor : String)
    (exceptions : List String) (member : Member) : Prop where
  access : member.access = access
  name : c.memberName member = .ok name
  descriptor : c.memberDescriptor member = .ok descriptor
  exceptions : c.declaredExceptions member = .ok exceptions

/-- **A method as the class file has it**, in a class of a name, if it was added to a pool: with
its declared exceptions, and with its code if it has a body. Name and descriptor are in the pool
when the code is laid out. -/
structure MethodShown (c : ClassFile) (thisName : String) (m : MethodDraft) (b : PoolBuilder)
    (member : Member) : Prop where
  access : member.access = m.access
  name : c.memberName member = .ok m.name
  descriptor : c.memberDescriptor member = .ok m.descriptor
  exceptions : c.declaredExceptions member = .ok m.exceptions
  bodiless : m.body = none → c.code member = .ok none
  code : ∀ body, m.body = some body → ∃ code, c.code member = .ok (some code) ∧
    ∃ i b₁ j b₂, Interner.utf8 m.name b = .ok i b₁ ∧ Interner.utf8 m.descriptor b₁ = .ok j b₂ ∧
      CodeShown c.pool (m.shape thisName) body b₂ code

namespace ClassDraft

variable {d d' : ClassDraft} {draft : MethodDraft} {member : Member}

/-- A field more. -/
theorem addField_ok {access : UInt16} {name descriptor : String}
    (h : d.addField access name descriptor b = .ok d' b') :
    ∃ member, d' = { d with fields := member :: d.fields } ∧
      ∀ (later : PoolBuilder) (c : ClassFile), b'.Grows later → c.pool = later.pool →
        FieldShown c access name descriptor member := by
  obtain ⟨i, b₁, hname, h₁⟩ := bind_run_ok.1 h
  obtain ⟨j, b₂, hdescriptor, hresult⟩ := bind_run_ok.1 h₁
  cases hresult
  obtain ⟨hgrows, hutf8'⟩ := Interner.utf8_ok hdescriptor
  have hutf8 := (Interner.utf8_ok hname).2
  refine ⟨_, rfl, fun later c hlater hpool => ⟨rfl, ?_, ?_, rfl⟩⟩
  · rw [ClassFile.memberName, hpool]
    exact (hgrows.trans hlater).utf8 hutf8
  · rw [ClassFile.memberDescriptor, hpool]
    exact hlater.utf8 hutf8'

/-- **The parts of a method**: its name and its descriptor, its code if it has a body, and its
declared exceptions. -/
inductive MethodParts (thisName : String) (draft : MethodDraft) (b b' : PoolBuilder)
    (member : Member) : Prop
  | intro {i j : UInt16} {b₁ b₂ b₃ : PoolBuilder} {code thrown : List Attribute}
    (hname : Interner.utf8 draft.name b = .ok i b₁)
    (hdescriptor : Interner.utf8 draft.descriptor b₁ = .ok j b₂)
    (hnone : draft.body = none → code = [] ∧ b₃ = b₂)
    (hsome : ∀ body, draft.body = some body →
      ∃ a, code = [a] ∧ codeAttribute (draft.shape thisName) body b₂ = .ok a b₃)
    (hthrown : exceptionsAttribute draft.exceptions b₃ = .ok thrown b')
    (hmember : member = ⟨draft.access, i, j, code ++ thrown⟩)

/-- A method more. -/
theorem addMethod_ok (h : d.addMethod draft b = .ok d' b') :
    ∃ member, d' = { d with methods := member :: d.methods } ∧
      MethodParts d.thisName draft b b' member := by
  obtain ⟨i, b₁, hname, h₁⟩ := bind_run_ok.1 h
  obtain ⟨j, b₂, hdescriptor, h₂⟩ := bind_run_ok.1 h₁
  cases hbody : draft.body with
  | none =>
    rw [hbody] at h₂
    obtain ⟨code, b₃, hcode, h₃⟩ := bind_run_ok.1 h₂
    cases hcode
    obtain ⟨thrown, b₄, hthrown, hresult⟩ := bind_run_ok.1 h₃
    cases hresult
    exact ⟨_, rfl, .intro hname hdescriptor (fun _ => ⟨rfl, rfl⟩)
      (fun body hsome => by rw [hbody] at hsome; cases hsome) hthrown rfl⟩
  | some body =>
    rw [hbody] at h₂
    obtain ⟨a, b₃, ha, h₃⟩ := bind_run_ok.1 h₂
    obtain ⟨code, b₄, hcode, h₄⟩ := bind_run_ok.1 h₃
    cases hcode
    obtain ⟨thrown, b₅, hthrown, hresult⟩ := bind_run_ok.1 h₄
    cases hresult
    refine ⟨_, rfl, .intro hname hdescriptor (fun hnone => by rw [hbody] at hnone; cases hnone)
      (fun body' hsome => ?_) hthrown rfl⟩
    rw [hbody] at hsome
    cases hsome
    exact ⟨a, rfl, ha⟩

namespace MethodParts

variable {c : ClassFile} {thisName : String}

/-- A method has two attributes at most. -/
theorem length_attributes_le (h : MethodParts thisName draft b b' member) :
    member.attributes.length ≤ 2 := by
  obtain ⟨hname, hdescriptor, hnone, hsome, hthrown, rfl⟩ := h
  have hthrown' := (exceptionsAttribute_ok hthrown (.refl b')).1.length_le
  cases hbody : draft.body with
  | none =>
    obtain ⟨rfl, rfl⟩ := hnone hbody
    exact Nat.le_succ_of_le hthrown'
  | some body =>
    obtain ⟨a, rfl, -⟩ := hsome body hbody
    exact Nat.succ_le_succ hthrown'

/-- **The code of a method** is read back if its attribute can be counted. -/
theorem code (h : MethodParts thisName draft b b' member) (hlater : b'.Grows later)
    (hpool : c.pool = later.pool) (hfits : ∀ a ∈ member.attributes, a.Fits) {body : Body}
    (hbody : draft.body = some body) :
    ∃ i b₁ j b₂, Interner.utf8 draft.name b = .ok i b₁ ∧
      Interner.utf8 draft.descriptor b₁ = .ok j b₂ ∧
      ∃ (code : CodeBody) (p : Program) (l : Layout) (b₃ : PoolBuilder) (info : VerifierInfo)
        (b₄ : PoolBuilder), c.code member = .ok (some code) ∧
        body.program draft.name = .ok p ∧ Layout.ofProgram draft.name p b₂ = .ok l b₃ ∧
        VerifierInfo.ofProgram (draft.shape thisName) p l.offsets b₃ = .ok info b₄ ∧
        b₃.Grows later ∧
        code.maxStack = info.maxStack ∧ code.maxLocals = info.maxLocals ∧ code.code = l.code ∧
        List.Forall₂ (HandlerShown later.pool body l.offsets) body.handlers code.handlers ∧
        (Frame.decodeTable (Frame.encodeTable info.frames) = .ok info.frames →
          code.frames later.pool = .ok info.frames) := by
  obtain ⟨hname, hdescriptor, -, hsome, hthrown, rfl⟩ := h
  obtain ⟨a, rfl, ha⟩ := hsome body hbody
  have hgrows := ((extending_exceptionsAttribute _).of_ok hthrown).grows.trans hlater
  obtain ⟨hcodeName, code, p, l, b₃, info, b₄, hread, hrest⟩ :=
    codeAttribute_ok ha hgrows (hfits a List.mem_cons_self)
  refine ⟨_, _, _, _, hname, hdescriptor, code, p, l, b₃, info, b₄, ?_, hrest⟩
  unfold ClassFile.code
  rw [hpool]
  refine bind_eq_ok.2 ⟨some a, Attribute.find_cons_of_eq hcodeName, ?_⟩
  dsimp only
  rw [hread]
  rfl

/-- **The name and the descriptor of a method** are read back from every later pool, however long
they are. -/
theorem named (h : MethodParts thisName draft b b' member) (hlater : b'.Grows later)
    (hpool : c.pool = later.pool) : member.access = draft.access ∧
      c.memberName member = .ok draft.name ∧ c.memberDescriptor member = .ok draft.descriptor := by
  obtain ⟨hname, hdescriptor, hnone, hsome, hthrown, rfl⟩ := h
  rename_i i j b₁ b₂ b₃ code thrown
  have hgrows₃ := ((extending_exceptionsAttribute _).of_ok hthrown).grows.trans hlater
  have hgrows₂ : b₂.Grows later := by
    cases hbody : draft.body with
    | none =>
      obtain ⟨-, rfl⟩ := hnone hbody
      exact hgrows₃
    | some body =>
      obtain ⟨a, -, ha⟩ := hsome body hbody
      exact ((extending_codeAttribute _ _).of_ok ha).grows.trans hgrows₃
  obtain ⟨hgrows₁, hutf8'⟩ := Interner.utf8_ok hdescriptor
  refine ⟨rfl, ?_, ?_⟩
  · rw [ClassFile.memberName, hpool]
    exact (hgrows₁.trans hgrows₂).utf8 (Interner.utf8_ok hname).2
  · rw [ClassFile.memberDescriptor, hpool]
    exact hgrows₂.utf8 hutf8'

/-- **What a method declares** is read back from every later pool. -/
theorem declared (h : MethodParts thisName draft b b' member) (hlater : b'.Grows later)
    (hpool : c.pool = later.pool) (hfits : ∀ a ∈ member.attributes, a.Fits) :
    MethodDeclared c draft.access draft.name draft.descriptor draft.exceptions member := by
  obtain ⟨haccess, hname, hdescriptor⟩ := h.named hlater hpool
  refine ⟨haccess, hname, hdescriptor, ?_⟩
  obtain ⟨-, -, hnone, hsome, hthrown, rfl⟩ := h
  rename_i i j b₁ b₂ b₃ code thrown
  have hgrows₃ := ((extending_exceptionsAttribute _).of_ok hthrown).grows.trans hlater
  obtain ⟨-, -, hexceptions⟩ := exceptionsAttribute_ok hthrown hlater
  -- the code attribute stands in front of the declared exceptions, if there is one
  have hcodeOne : AtMostOne later.pool Attribute.codeName code := by
    cases hbody : draft.body with
    | none =>
      obtain ⟨rfl, -⟩ := hnone hbody
      exact .inl rfl
    | some body =>
      obtain ⟨a, rfl, ha⟩ := hsome body hbody
      obtain ⟨hcodeName, -⟩ := codeAttribute_ok ha hgrows₃ (hfits a List.mem_cons_self)
      exact .inr ⟨a, rfl, hcodeName⟩
  unfold ClassFile.declaredExceptions
  rw [hpool]
  dsimp only
  rw [hcodeOne.find_append (by decide)]
  exact hexceptions

/-- **A method is read back** from every later pool. -/
theorem shown (h : MethodParts thisName draft b b' member) (hlater : b'.Grows later)
    (hpool : c.pool = later.pool) (hfits : ∀ a ∈ member.attributes, a.Fits)
    (hslots : ∀ body, draft.body = some body → SlotsFit (draft.shape thisName) body) :
    MethodShown c thisName draft b member := by
  obtain ⟨haccess, hname, hdescriptor, hexceptions⟩ := h.declared hlater hpool hfits
  refine ⟨haccess, hname, hdescriptor, hexceptions, fun hbody => ?_, fun body hbody => ?_⟩
  · obtain ⟨-, -, hnone, -, hthrown, rfl⟩ := h
    obtain ⟨hone, -, -⟩ := exceptionsAttribute_ok hthrown hlater
    obtain ⟨rfl, -⟩ := hnone hbody
    have habsent : Attribute.find later.pool Attribute.codeName (_ ++ []) = .ok none :=
      hone.find_append (by decide)
    rw [List.append_nil] at habsent
    unfold ClassFile.code
    rw [hpool]
    exact bind_eq_ok.2 ⟨none, habsent, rfl⟩
  · obtain ⟨_, _, _, _, hname', hdescriptor', code', p, l, b₄, info, b₅, hread, hprogram, hlayout,
      hinfo, -, hstack, hlocals, hbytes, hhandlers, hframes⟩ := h.code hlater hpool hfits hbody
    refine ⟨code', hread, _, _, _, _, hname', hdescriptor', p, l, b₄, info, b₅, hprogram, hlayout,
      hinfo, hstack, hlocals, hbytes, hpool ▸ hhandlers, ?_⟩
    rw [hpool]
    exact hframes (decodeTable_ofProgram ⟨hprogram, _, _, hlayout⟩ hinfo (hslots body hbody))

end MethodParts

end ClassDraft

end Code

end ProxyForge
