import ProxyForge.Proofs.Draft.Members
/-!
# Classes that are drafted call by call

A `Session` is a draft on which calls are made, some of which fail. `Session.Recorded` says what
the draft holds after any of them: what the successful calls asked for, in their order.
`ofBytes_encode_finish` reads the finished class file back from its bytes and finds that in it.
-/

namespace ProxyForge

open Outcome

namespace Code

/-- A call on a draft. -/
inductive Call
  | addField (access : UInt16) (name descriptor : String)
  | addMethod (m : MethodDraft)
  | setSourceFile (name : String)
  | annotate (descriptor : String)
  deriving DecidableEq, Repr

/-- What the call does. -/
def Call.run (d : ClassDraft) : Call → Interner ClassDraft
  | addField access name descriptor => d.addField access name descriptor
  | addMethod m => d.addMethod m
  | setSourceFile name => d.setSourceFile name
  | annotate descriptor => ClassDraft.addAnnotation d descriptor

/-- **A draft on which calls are made.** -/
structure Session where
  draft : ClassDraft
  pool : PoolBuilder
  /-- The calls that succeeded, in their order, each with the pool that it found. -/
  accepted : List (Call × PoolBuilder)

namespace Session

/-- **One call.** If it fails, nothing of it is kept but the constants that it added. -/
def call (s : Session) (c : Call) : Session :=
  match c.run s.draft s.pool with
  | .ok d b => ⟨d, b, s.accepted ++ [(c, s.pool)]⟩
  | .error _ b => { s with pool := b }

/-- Calls, one after the other. -/
def calls (s : Session) (cs : List Call) : Session :=
  cs.foldl call s

/-- **Calls that all succeed** are all accepted. -/
theorem calls_of_foldlM {s : Session} {cs : List Call} {d : ClassDraft} {b : PoolBuilder}
    (h : cs.foldlM Call.run s.draft s.pool = .ok d b) :
    (s.calls cs).draft = d ∧ (s.calls cs).pool = b ∧
      (s.calls cs).accepted.map Prod.fst = s.accepted.map Prod.fst ++ cs := by
  induction cs generalizing s with
  | nil =>
    cases h
    exact ⟨rfl, rfl, (List.append_nil _).symm⟩
  | cons c cs ih =>
    rw [List.foldlM_cons] at h
    obtain ⟨d₁, b₁, hc, hrest⟩ := bind_run_ok.1 h
    have hcall : s.call c = ⟨d₁, b₁, s.accepted ++ [(c, s.pool)]⟩ := by
      unfold call
      rw [hc]
    obtain ⟨hdraft, hpool, haccepted⟩ := ih (s := s.call c) (by rw [hcall]; exact hrest)
    refine ⟨hdraft, hpool, haccepted.trans ?_⟩
    rw [hcall, List.map_append, List.append_assoc]
    rfl

/-! ## What was asked for -/

/-- The field that a call adds. -/
def fieldOf : Call → Option (UInt16 × String × String)
  | .addField access name descriptor => some (access, name, descriptor)
  | _ => none

/-- The method that a call adds. -/
def methodOf : Call → Option MethodDraft
  | .addMethod m => some m
  | _ => none

/-- The source file that a call sets. -/
def sourceOf : Call → Option String
  | .setSourceFile name => some name
  | _ => none

/-- The annotation that a call adds. -/
def annotationOf : Call → Option String
  | .annotate descriptor => some descriptor
  | _ => none

/-- The fields that were added, in their order. -/
def fields (s : Session) : List (UInt16 × String × String) :=
  s.accepted.filterMap fun entry => fieldOf entry.1

/-- The methods that were added, in their order, each with the pool that it found. -/
def methods (s : Session) : List (MethodDraft × PoolBuilder) :=
  s.accepted.filterMap fun entry => (methodOf entry.1).map fun m => (m, entry.2)

/-- The source files that were set, in their order. -/
def sourceFiles (s : Session) : List String :=
  s.accepted.filterMap fun entry => sourceOf entry.1

/-- The annotations that were added, in their order. -/
def annotations (s : Session) : List String :=
  s.accepted.filterMap fun entry => annotationOf entry.1

/-- What one more entry adds to a list. -/
theorem filterMap_snoc {α β : Type} (f : α → Option β) (xs : List α) (x : α) :
    (xs ++ [x]).filterMap f = xs.filterMap f ++ (f x).toList := by
  rw [List.filterMap_append, List.filterMap_cons, List.filterMap_nil]
  cases f x <;> rfl

end Session

/-! ## What a draft holds -/

variable {d d' : ClassDraft} {b b' : PoolBuilder} {access : UInt16} {own base : String}
  {interfaces : List String} {s : Session}

/-- **A session records** a class of a name: its draft holds what the successful calls asked for. -/
structure Session.Recorded (access : UInt16) (own base : String) (interfaces : List String)
    (s : Session) : Prop where
  extends_empty : PoolBuilder.empty.Extends s.pool
  access : s.draft.access = access
  thisName : s.draft.thisName = own
  thisClass : s.pool.pool.className s.draft.thisClass = .ok own
  superClass : s.pool.pool.className s.draft.superClass = .ok base
  interfaces : List.Forall₂ (fun i name => s.pool.pool.className i = .ok name) s.draft.interfaces
    interfaces
  fields : List.Forall₂ (fun field member => ∀ (later : PoolBuilder) (c : ClassFile),
    s.pool.Grows later → c.pool = later.pool → FieldShown c field.1 field.2.1 field.2.2 member)
    s.fields s.draft.fields.reverse
  methods : List.Forall₂ (fun method member => ∃ b', ClassDraft.MethodParts own method.1
    method.2 b' member ∧ b'.Grows s.pool) s.methods s.draft.methods.reverse
  sourceFile : Option.Rel (fun i name => s.pool.pool.utf8 i = .ok name) s.draft.sourceFile
    s.sourceFiles.getLast?
  annotations : List.Forall₂ (fun i name => s.pool.pool.utf8 i = .ok name)
    s.draft.annotations.reverse s.annotations

namespace Session

theorem extending_run (c : Call) : Interner.Extending (c.run d) := by
  cases c with
  | addField access name descriptor => exact ClassDraft.extending_addField _ _ _ _
  | addMethod m => exact ClassDraft.extending_addMethod _ _
  | setSourceFile name => exact ClassDraft.extending_setSourceFile _ _
  | annotate descriptor => exact ClassDraft.extending_addAnnotation _ _

/-- A pool after a call that fails. -/
theorem extends_of_error {c : Call} {e : EmissionError}
    (h : c.run d b = .error e b') : b.Extends b' := by
  have hafter := extending_run (d := d) c b
  unfold Interner.poolAfter at hafter
  rwa [h] at hafter

namespace Recorded

/-- A pool that grew holds what it held. -/
theorem extends_pool (h : Recorded access own base interfaces s) (hextends : s.pool.Extends b) :
    Recorded access own base interfaces { s with pool := b } where
  extends_empty := h.extends_empty.trans hextends
  access := h.access
  thisName := h.thisName
  thisClass := hextends.grows.className h.thisClass
  superClass := hextends.grows.className h.superClass
  interfaces := h.interfaces.imp fun _ _ hi => hextends.grows.className hi
  fields := h.fields.imp fun _ _ hf later c hlater => hf later c (hextends.grows.trans hlater)
  methods := h.methods.imp fun _ _ ⟨b', hparts, hgrows⟩ => ⟨b', hparts, hgrows.trans hextends.grows⟩
  sourceFile := by
    have hsource := h.sourceFile
    change Option.Rel _ s.draft.sourceFile s.sourceFiles.getLast?
    generalize s.draft.sourceFile = i, s.sourceFiles.getLast? = name at hsource ⊢
    cases hsource with
    | none => exact .none
    | some hutf8 => exact .some (hextends.grows.utf8 hutf8)
  annotations := h.annotations.imp fun _ _ hi => hextends.grows.utf8 hi

/-- **A call that succeeds** is recorded. -/
theorem accept (h : Recorded access own base interfaces s) {c : Call}
    (hrun : c.run s.draft s.pool = .ok d b) :
    Recorded access own base interfaces ⟨d, b, s.accepted ++ [(c, s.pool)]⟩ := by
  have hgrown := h.extends_pool ((extending_run c).of_ok hrun)
  have hfields : (Session.mk d b (s.accepted ++ [(c, s.pool)])).fields =
      s.fields ++ (fieldOf c).toList := filterMap_snoc _ _ _
  have hmethods : (Session.mk d b (s.accepted ++ [(c, s.pool)])).methods =
      s.methods ++ ((methodOf c).map fun m => (m, s.pool)).toList := filterMap_snoc _ _ _
  have hsources : (Session.mk d b (s.accepted ++ [(c, s.pool)])).sourceFiles =
      s.sourceFiles ++ (sourceOf c).toList := filterMap_snoc _ _ _
  have hannotations : (Session.mk d b (s.accepted ++ [(c, s.pool)])).annotations =
      s.annotations ++ (annotationOf c).toList := filterMap_snoc _ _ _
  cases c with
  | addField fieldAccess name descriptor =>
    obtain ⟨member, rfl, hmember⟩ := ClassDraft.addField_ok hrun
    refine { hgrown with fields := ?_, methods := ?_, sourceFile := ?_, annotations := ?_ }
    · rw [hfields, List.reverse_cons]
      exact List.rel_append hgrown.fields (.cons hmember .nil)
    · rw [hmethods]
      exact (List.append_nil s.methods).symm ▸ hgrown.methods
    · rw [hsources]
      exact (List.append_nil s.sourceFiles).symm ▸ hgrown.sourceFile
    · rw [hannotations]
      exact (List.append_nil s.annotations).symm ▸ hgrown.annotations
  | addMethod m =>
    obtain ⟨member, rfl, hparts⟩ := ClassDraft.addMethod_ok hrun
    refine { hgrown with fields := ?_, methods := ?_, sourceFile := ?_, annotations := ?_ }
    · rw [hfields]
      exact (List.append_nil s.fields).symm ▸ hgrown.fields
    · rw [hmethods, List.reverse_cons]
      exact List.rel_append hgrown.methods (.cons ⟨b, h.thisName ▸ hparts, .refl b⟩ .nil)
    · rw [hsources]
      exact (List.append_nil s.sourceFiles).symm ▸ hgrown.sourceFile
    · rw [hannotations]
      exact (List.append_nil s.annotations).symm ▸ hgrown.annotations
  | setSourceFile name =>
    obtain ⟨i, b₁, hname, hresult⟩ := bind_run_ok.1 hrun
    cases hresult
    refine { hgrown with fields := ?_, methods := ?_, sourceFile := ?_, annotations := ?_ }
    · rw [hfields]
      exact (List.append_nil s.fields).symm ▸ hgrown.fields
    · rw [hmethods]
      exact (List.append_nil s.methods).symm ▸ hgrown.methods
    · have hlast : (s.sourceFiles ++ [name]).getLast? = some name := List.getLast?_concat
      rw [hsources]
      exact hlast.symm ▸ .some (Interner.utf8_ok hname).2
    · rw [hannotations]
      exact (List.append_nil s.annotations).symm ▸ hgrown.annotations
  | annotate descriptor =>
    obtain ⟨i, b₁, hname, hresult⟩ := bind_run_ok.1 hrun
    cases hresult
    refine { hgrown with fields := ?_, methods := ?_, sourceFile := ?_, annotations := ?_ }
    · rw [hfields]
      exact (List.append_nil s.fields).symm ▸ hgrown.fields
    · rw [hmethods]
      exact (List.append_nil s.methods).symm ▸ hgrown.methods
    · rw [hsources]
      exact (List.append_nil s.sourceFiles).symm ▸ hgrown.sourceFile
    · rw [hannotations, List.reverse_cons]
      exact List.rel_append hgrown.annotations (.cons (Interner.utf8_ok hname).2 .nil)

/-- **One call** keeps the record. -/
theorem call (h : Recorded access own base interfaces s) (c : Call) :
    Recorded access own base interfaces (s.call c) := by
  unfold Session.call
  cases hrun : c.run s.draft s.pool with
  | error e b => exact h.extends_pool (extends_of_error hrun)
  | ok d b => exact h.accept hrun

/-- **All calls** keep the record. -/
theorem calls (h : Recorded access own base interfaces s) (cs : List Call) :
    Recorded access own base interfaces (s.calls cs) := by
  unfold Session.calls
  induction cs generalizing s with
  | nil => exact h
  | cons c cs ih => exact ih (h.call c)

/-- **A new draft** records a class without members. -/
theorem start (h : ClassDraft.new access own base interfaces .empty = .ok d b) :
    Recorded access own base interfaces ⟨d, b, []⟩ := by
  have hextends := (ClassDraft.extending_new _ _ _ _).of_ok h
  obtain ⟨i, b₁, hown, h₁⟩ := bind_run_ok.1 h
  obtain ⟨j, b₂, hbase, h₂⟩ := bind_run_ok.1 h₁
  obtain ⟨is, b₃, hinterfaces, hresult⟩ := bind_run_ok.1 h₂
  cases hresult
  obtain ⟨-, hclass⟩ := Interner.classRef_ok hown
  obtain ⟨hgrows, hsuper⟩ := Interner.classRef_ok hbase
  obtain ⟨hgrows', hnames⟩ := Interner.mapM_ok
    (R := fun b (name : String) (i : UInt16) => b.pool.className i = .ok name)
    (fun hg hn => hg.className hn) (fun _ hi => Interner.classRef_ok hi) hinterfaces
  exact ⟨hextends, rfl, rfl, (hgrows.trans hgrows').className hclass, hgrows'.className hsuper,
    hnames.flip, .nil, .nil, .none, .nil⟩

end Recorded

/-! ## The finished class -/

/-- **A class file shows a session**: what the successful calls asked for, in their order. -/
structure ShownBy (access : UInt16) (own base : String) (interfaces : List String) (s : Session)
    (c : ClassFile) : Prop where
  access : c.access = access
  thisName : c.thisName = .ok own
  superName : c.superName = .ok (some base)
  interfaceNames : c.interfaceNames = .ok interfaces
  fields : List.Forall₂ (fun f member => FieldShown c f.1 f.2.1 f.2.2 member) s.fields c.fields
  methods : List.Forall₂ (fun m member => MethodShown c own m.1 m.2 member) s.methods c.methods
  /-- The one that was set last, if any. -/
  sourceFile : c.sourceFile = .ok s.sourceFiles.getLast?
  annotationTypes : c.annotationTypes = .ok s.annotations

end Session

/-- **The parts of a finished class file.** -/
theorem ClassDraft.finish_ok {file : ClassFile} (h : d.finish b = .ok file b') :
    ∃ source b₁ annotations, d.sourceAttribute b = .ok source b₁ ∧
      d.annotationsAttribute b₁ = .ok annotations b' ∧
      d.interfaces.length ≤ 65535 ∧ d.fields.length ≤ 65535 ∧ d.methods.length ≤ 65535 ∧
      file = ⟨0, majorVersion, b'.pool, d.access, d.thisClass, d.superClass, d.interfaces,
        d.fields.reverse, d.methods.reverse, source ++ annotations⟩ := by
  obtain ⟨source, b₁, hsource, h₁⟩ := bind_run_ok.1 h
  obtain ⟨annotations, b₂, hannotations, h₂⟩ := bind_run_ok.1 h₁
  obtain ⟨_, b₃, hinterfaces, h₃⟩ := bind_run_ok.1 h₂
  obtain ⟨_, b₄, hfields, h₄⟩ := bind_run_ok.1 h₃
  obtain ⟨_, b₅, hmethods, h₅⟩ := bind_run_ok.1 h₄
  obtain ⟨hi, -, rfl⟩ := Interner.count16_ok hinterfaces
  obtain ⟨hf, -, rfl⟩ := Interner.count16_ok hfields
  obtain ⟨hm, -, rfl⟩ := Interner.count16_ok hmethods
  cases h₅
  exact ⟨source, b₁, annotations, hsource, hannotations, hi, hf, hm, rfl⟩

/-- **A finished class keeps the record**: its attributes only add constants. -/
theorem Session.Recorded.finish {file : ClassFile} (h : Recorded access own base interfaces s)
    (hfinish : s.draft.finish s.pool = .ok file b') :
    Recorded access own base interfaces { s with pool := b' } := by
  obtain ⟨source, b₁, annotations, hsource, hannotated, -⟩ := ClassDraft.finish_ok hfinish
  exact h.extends_pool (((ClassDraft.extending_sourceAttribute _).of_ok hsource).trans
    ((ClassDraft.extending_annotationsAttribute _).of_ok hannotated))

/-- **The attributes of a finished class**, each behind a name of its own. They can be counted, and
they are read back. -/
theorem Session.Recorded.attributes {file : ClassFile} (h : Recorded access own base interfaces s)
    (hfinish : s.draft.finish s.pool = .ok file b') (hannotations : s.annotations.length ≤ 65535) :
    ∃ attributes, file = ⟨0, ClassDraft.majorVersion, b'.pool, s.draft.access, s.draft.thisClass,
        s.draft.superClass, s.draft.interfaces, s.draft.fields.reverse, s.draft.methods.reverse,
        attributes⟩ ∧
      Attribute.AllFit attributes ∧
      ClassDraft.sourceOf b'.pool attributes = .ok s.sourceFiles.getLast? ∧
      ClassDraft.annotationsOf b'.pool attributes = .ok s.annotations := by
  have hlater := h.finish hfinish
  obtain ⟨source, b₁, annotations, hsource, hannotated, -, -, -, hfile⟩ :=
    ClassDraft.finish_ok hfinish
  have hgrows := ((ClassDraft.extending_annotationsAttribute _).of_ok hannotated).grows
  obtain ⟨hannotationOne, hannotationFits, hannotationTypes⟩ :=
    ClassDraft.annotationsAttribute_ok hannotated (.refl b')
      (by rw [← List.length_reverse, hlater.annotations.length_eq]; exact hannotations)
      hlater.annotations
  have habsent : Attribute.find b'.pool Attribute.sourceFileName (annotations ++ []) = .ok none :=
    hannotationOne.find_append (by decide)
  rw [List.append_nil] at habsent
  obtain ⟨hsourceOne, hsourceFits, hsourceFile⟩ :=
    ClassDraft.sourceAttribute_ok hsource hgrows hlater.sourceFile habsent
  refine ⟨source ++ annotations, hfile, ⟨?_, fun a ha => ?_⟩, hsourceFile, ?_⟩
  · have hone := hsourceOne.length_le
    have hother := hannotationOne.length_le
    rw [List.length_append]
    omega
  · rcases List.mem_append.1 ha with ha | ha
    · exact hsourceFits a ha
    · exact hannotationFits a ha
  · unfold ClassDraft.annotationsOf
    rw [hsourceOne.find_append (by decide)]
    exact hannotationTypes

/-- **A finished class is read back from its bytes**, if its parts can be counted. -/
theorem Session.Recorded.ofBytes_encode {file : ClassFile}
    (h : Recorded access own base interfaces s) (hfinish : s.draft.finish s.pool = .ok file b')
    (htexts : file.pool.TextsFit) (hannotations : s.annotations.length ≤ 65535)
    (hbodies : ∀ m ∈ file.methods, ∀ a ∈ m.attributes, a.Fits) :
    ClassFile.ofBytes file.encode = .ok file := by
  have hlater := h.finish hfinish
  obtain ⟨-, -, -, -, -, hinterfaces, hfields, hmethods, -⟩ := ClassDraft.finish_ok hfinish
  obtain ⟨attributes, rfl, hattributes, -, -⟩ := h.attributes hfinish hannotations
  have hmembers : ∀ m ∈ s.draft.fields.reverse ++ s.draft.methods.reverse,
      Attribute.AllFit m.attributes := by
    intro m hm
    rcases List.mem_append.1 hm with hm | hm
    · obtain ⟨k, hk⟩ := List.mem_iff_getElem?.1 hm
      obtain ⟨f, -, hf⟩ := getElem?_of_forall₂ hlater.fields hk
      rw [(hf b' ⟨0, ClassDraft.majorVersion, b'.pool, s.draft.access, s.draft.thisClass,
        s.draft.superClass, s.draft.interfaces, s.draft.fields.reverse, s.draft.methods.reverse,
        attributes⟩ (.refl b') rfl).attributes]
      exact ⟨Nat.zero_le _, nofun⟩
    · obtain ⟨k, hk⟩ := List.mem_iff_getElem?.1 hm
      obtain ⟨_, -, b'', hparts, -⟩ := getElem?_of_forall₂ hlater.methods hk
      exact ⟨Nat.le_trans hparts.length_attributes_le (by decide), hbodies m hm⟩
  refine ClassFile.ofBytes_encode ⟨PoolBuilder.lists_of_extends hlater.extends_empty, b'.size_le,
    htexts, hinterfaces, ?_, ?_, hmembers, hattributes⟩ hlater.thisClass
  · rwa [List.length_reverse]
  · rwa [List.length_reverse]

/-- The names of a finished class and of its superclass. -/
theorem Session.Recorded.names {file : ClassFile} (h : Recorded access own base interfaces s)
    (hfinish : s.draft.finish s.pool = .ok file b') :
    file.thisName = .ok own ∧ file.superName = .ok (some base) := by
  have hlater := h.finish hfinish
  obtain ⟨_, _, _, -, -, -, -, -, rfl⟩ := ClassDraft.finish_ok hfinish
  refine ⟨hlater.thisClass, ?_⟩
  -- nothing stands at index zero
  have hzero : s.draft.superClass ≠ 0 := by
    intro hzero
    have hsuper := hlater.superClass
    rw [hzero] at hsuper
    obtain ⟨constant, hget, -⟩ := bind_eq_ok.1 hsuper
    exact PoolBuilder.get_zero_of_extends hlater.extends_empty constant hget
  change (if s.draft.superClass = 0 then Except.ok none else
    some <$> b'.pool.className s.draft.superClass) = _
  rw [if_neg hzero, hlater.superClass]
  rfl

/-- **A class file announces** what a session asked for, its methods apart. -/
structure Session.AnnouncedBy (access : UInt16) (own base : String) (interfaces : List String)
    (s : Session) (c : ClassFile) : Prop where
  version : c.minor = 0 ∧ c.major = ClassDraft.majorVersion
  access : c.access = access
  thisName : c.thisName = .ok own
  superName : c.superName = .ok (some base)
  interfaceNames : c.interfaceNames = .ok interfaces
  fields : List.Forall₂ (fun f member => FieldShown c f.1 f.2.1 f.2.2 member) s.fields c.fields
  sourceFile : c.sourceFile = .ok s.sourceFiles.getLast?
  annotationTypes : c.annotationTypes = .ok s.annotations

/-- **A finished class announces** what its session asked for. -/
theorem Session.Recorded.announced {file : ClassFile} (h : Recorded access own base interfaces s)
    (hfinish : s.draft.finish s.pool = .ok file b') (hannotations : s.annotations.length ≤ 65535) :
    s.AnnouncedBy access own base interfaces file := by
  have hnames := h.names hfinish
  have hlater := h.finish hfinish
  obtain ⟨attributes, rfl, -, hsourceFile, hannotationTypes⟩ := h.attributes hfinish hannotations
  exact ⟨⟨rfl, rfl⟩, h.access, hnames.1, hnames.2, mapM_of_forall₂ hlater.interfaces,
    hlater.fields.imp fun f member hf => hf b' _ (.refl b') rfl, hsourceFile, hannotationTypes⟩

open Session in
/-- **A drafted class is read back from its bytes**, and it shows what the successful calls asked
for. A call that fails changes neither the draft nor anything that the pool holds. -/
theorem ofBytes_encode_finish {cs : List Call} {file : ClassFile}
    (hnew : ClassDraft.new access own base interfaces .empty = .ok d b)
    (hfinish : ((Session.mk d b []).calls cs).draft.finish ((Session.mk d b []).calls cs).pool =
      .ok file b')
    (htexts : file.pool.TextsFit)
    (hannotations : ((Session.mk d b []).calls cs).annotations.length ≤ 65535)
    (hbodies : ∀ m ∈ file.methods, ∀ a ∈ m.attributes, a.Fits)
    (hslots : ∀ m ∈ ((Session.mk d b []).calls cs).methods, ∀ body, m.1.body = some body →
      SlotsFit (m.1.shape own) body) :
    ClassFile.ofBytes file.encode = .ok file ∧
      ((Session.mk d b []).calls cs).ShownBy access own base interfaces file ∧
      ∀ (s : Session) (c : Call) (e : EmissionError) (b : PoolBuilder),
        c.run s.draft s.pool = .error e b → (s.call c).draft = s.draft ∧
          (s.call c).accepted = s.accepted ∧ s.pool.Grows (s.call c).pool := by
  have hrecord := (Recorded.start hnew).calls cs
  generalize (Session.mk d b []).calls cs = s at hfinish hannotations hslots hrecord ⊢
  have hread := hrecord.ofBytes_encode hfinish htexts hannotations hbodies
  have hnames := hrecord.names hfinish
  obtain ⟨source, b₁, annotations, hsource, hannotated, hinterfaces, hfields, hmethods, rfl⟩ :=
    ClassDraft.finish_ok hfinish
  have hextends₁ := (ClassDraft.extending_annotationsAttribute _).of_ok hannotated
  have hextends := ((ClassDraft.extending_sourceAttribute _).of_ok hsource).trans hextends₁
  have hlater := hrecord.extends_pool hextends
  -- the two attributes of the class, each behind a name of its own
  obtain ⟨hannotationOne, -, hannotationTypes⟩ :=
    ClassDraft.annotationsAttribute_ok hannotated (.refl b')
      (by rw [← List.length_reverse, hlater.annotations.length_eq]; exact hannotations)
      hlater.annotations
  have habsent : Attribute.find b'.pool Attribute.sourceFileName (annotations ++ []) = .ok none :=
    hannotationOne.find_append (by decide)
  rw [List.append_nil] at habsent
  obtain ⟨hsourceOne, -, hsourceFile⟩ :=
    ClassDraft.sourceAttribute_ok hsource hextends₁.grows hlater.sourceFile habsent
  have hfieldsShown := hlater.fields.imp fun f member hf => hf b' ⟨0, ClassDraft.majorVersion,
    b'.pool, s.draft.access, s.draft.thisClass, s.draft.superClass, s.draft.interfaces,
    s.draft.fields.reverse, s.draft.methods.reverse, source ++ annotations⟩ (.refl b') rfl
  refine ⟨hread, ⟨hrecord.access, hnames.1, hnames.2, ?_, hfieldsShown, ?_, hsourceFile, ?_⟩, ?_⟩
  · exact mapM_of_forall₂ hlater.interfaces
  · refine forall₂_imp_of_mem hlater.methods fun m hm member hmember => ?_
    rintro ⟨b'', hparts, hgrows⟩
    exact hparts.shown hgrows rfl (hbodies member hmember) (hslots m hm)
  · change ClassDraft.annotationsOf b'.pool (source ++ annotations) = _
    unfold ClassDraft.annotationsOf
    rw [hsourceOne.find_append (by decide)]
    exact hannotationTypes
  · intro s c e b he
    unfold Session.call
    rw [he]
    exact ⟨rfl, rfl, (extends_of_error he).grows⟩

/-! ## A class with a method that never ends -/

namespace Spin

/-- The constants of the class, in the order in which they are added. -/
def constants : List Constant :=
  [.utf8 "Spin", .classRef 1, .utf8 "java/lang/Object", .classRef 3, .utf8 "bad", .utf8 "()V",
    .utf8 "spin", .utf8 "StackMapTable", .utf8 "Code", .utf8 "E", .classRef 10,
    .utf8 "Exceptions", .utf8 "Spin.java", .utf8 "LX;", .utf8 "SourceFile",
    .utf8 "RuntimeVisibleAnnotations"]

/-- The pool with the first of them. -/
@[irreducible]
def pool (n : Nat) : PoolBuilder :=
  (constants.take n).foldl PoolBuilder.add .empty

/-- A method whose jump leads nowhere. -/
def bad : MethodDraft := ⟨0, "bad", "()V", some ⟨[.op (.jump .always 9)], []⟩, []⟩

/-- The method that never ends. -/
def method : MethodDraft := ⟨Access.isStatic, "spin", "()V", some code, ["E"]⟩

/-- The second method is added, the first one is not. -/
def calls : List Call :=
  [.addMethod bad, .addMethod method, .setSourceFile "Spin.java", .annotate "LX;"]

def codeBody : ProxyForge.CodeBody :=
  ⟨1, 1, layout.code, [], [⟨8, Frame.encodeTable info.frames⟩]⟩

def member : Member :=
  ⟨Access.isStatic, 7, 6, [⟨9, codeBody.encode⟩, ⟨12, [0, 1, 0, 11]⟩]⟩

def draft : ClassDraft := ⟨0x21, "Spin", 2, 4, [], [], [], [], none⟩

def drafted : ClassDraft := ⟨0x21, "Spin", 2, 4, [], [], [member], [14], some 13⟩

def file : ClassFile :=
  ⟨0, 52, (pool 16).pool, 0x21, 2, 4, [], [], [member],
    [⟨15, [0, 13]⟩, ⟨16, [0, 1, 0, 14, 0, 0]⟩]⟩

/-- Each of them is new, there is room for it, and its index is its place. -/
theorem fresh : ∀ n < constants.length, ∀ c ∈ constants[n]?, some c ∉ (pool n).pool.entries ∧
    (pool n).count + c.width ≤ PoolBuilder.limit ∧
    UInt16.ofNat (pool n).count = UInt16.ofNat (n + 1) := by
  decide +kernel

/-- A constant that is added. -/
theorem added {n : Nat} {c : Constant} (hc : constants[n]? = some c) :
    Interner.constant c (pool n) = .ok (UInt16.ofNat (n + 1)) (pool (n + 1)) := by
  obtain ⟨hnew, hfits, hindex⟩ := fresh n (List.getElem?_eq_some_iff.1 hc).1 c hc
  have hpool : pool (n + 1) = (pool n).add c := by
    rw [pool, pool, List.take_add_one, hc, List.foldl_append]
    rfl
  rw [hpool, ← hindex]
  exact Interner.constant_add hnew hfits

/-- A constant that is there. -/
theorem kept {n : Nat} {i : UInt16} {c : Constant}
    (h : (pool n).pool.entries[i.toNat]? = some (some c)) :
    Interner.constant c (pool n) = .ok i (pool n) :=
  Interner.constant_of_getElem? h

theorem new_eq : ClassDraft.new 0x21 "Spin" "java/lang/Object" [] .empty = .ok draft (pool 4) := by
  have hempty : PoolBuilder.empty = pool 0 := by
    unfold pool
    rfl
  rw [hempty]
  have hown : Interner.classRef "Spin" (pool 0) = .ok 2 (pool 2) :=
    bind_run_ok.2 ⟨1, pool 1, added rfl, added rfl⟩
  have hbase : Interner.classRef "java/lang/Object" (pool 2) = .ok 4 (pool 4) :=
    bind_run_ok.2 ⟨3, pool 3, added rfl, added rfl⟩
  exact bind_run_ok.2 ⟨_, _, hown, bind_run_ok.2 ⟨_, _, hbase, rfl⟩⟩

theorem run_bad : (Call.addMethod bad).run draft (pool 4) =
    .error (.invalidCode "bad" (.jumpUnbound 0)) (pool 6) := by
  have hname : Interner.utf8 "bad" (pool 4) = .ok 5 (pool 5) := added rfl
  have hdescriptor : Interner.utf8 "()V" (pool 5) = .ok 6 (pool 6) := added rfl
  have hprogram : Body.program "bad" ⟨[.op (.jump .always 9)], []⟩ =
      .error (.invalidCode "bad" (.jumpUnbound 0)) := by
    simp [Body.program, Body.resolve, Body.ops, Body.opsOf, Body.positions, Body.positionsFrom,
      Op.resolve, Body.jumpTarget]
    rfl
  have hcode : ClassDraft.codeAttribute (bad.shape "Spin") ⟨[.op (.jump .always 9)], []⟩ (pool 6) =
      .error (.invalidCode "bad" (.jumpUnbound 0)) (pool 6) := by
    refine bind_run_error ?_ _
    change Interner.lift (Body.program "bad" _) _ = _
    rw [hprogram]
    rfl
  refine (bind_run_eq hname _).trans ((bind_run_eq hdescriptor _).trans ?_)
  exact bind_run_error hcode _

theorem run_method : (Call.addMethod method).run draft (pool 6) =
    .ok { draft with methods := [member] } (pool 12) := by
  have hname : Interner.utf8 "spin" (pool 6) = .ok 7 (pool 7) := added rfl
  have hdescriptor : Interner.utf8 "()V" (pool 7) = .ok 6 (pool 7) := kept (by decide +kernel)
  have hmap : Interner.utf8 Attribute.stackMapName (pool 7) = .ok 8 (pool 8) :=
    added rfl
  have hcode : Interner.utf8 Attribute.codeName (pool 8) = .ok 9 (pool 9) :=
    added rfl
  have hthrown : Interner.classRef "E" (pool 9) = .ok 11 (pool 11) :=
    bind_run_ok.2 ⟨10, pool 10, added rfl, added rfl⟩
  have hexceptions : Interner.utf8 Attribute.exceptionsName (pool 11) = .ok 12 (pool 12) :=
    added rfl
  have hshape : method.shape "Spin" = header := by decide
  have hframed : VerifierInfo.ofProgram header program layout.offsets (pool 7) =
      .ok info (pool 7) := by
    rw [VerifierInfo.ofProgram_eq entry (by decide) infer]
    rfl
  have hattribute : ClassDraft.codeAttribute header code (pool 7) =
      .ok ⟨9, codeBody.encode⟩ (pool 9) := by
    refine bind_run_ok.2 ⟨program, pool 7, ?_, ?_⟩
    · rw [laidOut.program]
      rfl
    refine bind_run_ok.2 ⟨layout, pool 7, rfl, bind_run_ok.2 ⟨info, pool 7, hframed, ?_⟩⟩
    refine bind_run_ok.2 ⟨0, pool 7, rfl, bind_run_ok.2 ⟨[], pool 7, rfl, ?_⟩⟩
    refine bind_run_ok.2 ⟨[⟨8, Frame.encodeTable info.frames⟩], pool 8, ?_, ?_⟩
    · refine bind_run_ok.2 ⟨1, pool 7, rfl, bind_run_ok.2 ⟨_, pool 8, ?_, rfl⟩⟩
      exact bind_run_ok.2 ⟨8, pool 8, hmap, rfl⟩
    · exact bind_run_ok.2 ⟨9, pool 9, hcode, rfl⟩
  refine bind_run_ok.2 ⟨7, pool 7, hname, bind_run_ok.2 ⟨6, pool 7, hdescriptor, ?_⟩⟩
  refine bind_run_ok.2 ⟨_, pool 9, hshape ▸ hattribute, bind_run_ok.2 ⟨_, pool 9, rfl, ?_⟩⟩
  refine bind_run_ok.2 ⟨[⟨12, [0, 1, 0, 11]⟩], pool 12, ?_, rfl⟩
  refine bind_run_ok.2 ⟨1, pool 9, rfl, bind_run_ok.2 ⟨[11], pool 11, ?_, ?_⟩⟩
  · exact bind_run_ok.2 ⟨11, pool 11, hthrown, rfl⟩
  · exact bind_run_ok.2 ⟨_, pool 12, bind_run_ok.2 ⟨12, pool 12, hexceptions, rfl⟩, rfl⟩

/-- After the calls, the draft holds the second method, the source file and the annotation. -/
theorem calls_eq : (Session.mk draft (pool 4) []).calls calls =
    ⟨drafted, pool 14, [(.addMethod method, pool 6), (.setSourceFile "Spin.java", pool 12),
      (.annotate "LX;", pool 13)]⟩ := by
  have hsource : (Call.setSourceFile "Spin.java").run { draft with methods := [member] } (pool 12) =
      .ok { draft with methods := [member], sourceFile := some 13 } (pool 13) :=
    bind_run_ok.2 ⟨13, pool 13, added rfl, rfl⟩
  have hannotation : (Call.annotate "LX;").run
      { draft with methods := [member], sourceFile := some 13 } (pool 13) =
      .ok drafted (pool 14) :=
    bind_run_ok.2 ⟨14, pool 14, added rfl, rfl⟩
  simp only [Session.calls, calls, List.foldl_cons, List.foldl_nil, Session.call, run_bad,
    run_method, hsource, hannotation]
  rfl

theorem finish_eq : drafted.finish (pool 14) = .ok file (pool 16) := by
  have hsource : Interner.utf8 Attribute.sourceFileName (pool 14) = .ok 15 (pool 15) :=
    added rfl
  have hannotations : Interner.utf8 Attribute.annotationsName (pool 15) = .ok 16 (pool 16) :=
    added rfl
  refine bind_run_ok.2 ⟨[⟨15, [0, 13]⟩], pool 15, ?_, ?_⟩
  · exact bind_run_ok.2 ⟨_, pool 15, bind_run_ok.2 ⟨15, pool 15, hsource, rfl⟩, rfl⟩
  refine bind_run_ok.2 ⟨[⟨16, [0, 1, 0, 14, 0, 0]⟩], pool 16, ?_, rfl⟩
  exact bind_run_ok.2 ⟨_, pool 16, bind_run_ok.2 ⟨16, pool 16, hannotations, rfl⟩, rfl⟩

end Spin

/-- The class with the method that never ends: its bytes are read back, and it has that method, one
annotation and a source file; the method whose jump leads nowhere is not in it. -/
theorem ofBytes_encode_finish_spin :
    ∃ d b file b', ClassDraft.new 0x21 "Spin" "java/lang/Object" [] .empty = .ok d b ∧
      ((Session.mk d b []).calls Spin.calls).draft.finish
        ((Session.mk d b []).calls Spin.calls).pool = .ok file b' ∧
      ClassFile.ofBytes file.encode = .ok file ∧
      ((Session.mk d b []).calls Spin.calls).ShownBy 0x21 "Spin" "java/lang/Object" [] file ∧
      file.methods.length = 1 ∧ file.annotationTypes = .ok ["LX;"] := by
  have hfinish : ((Session.mk Spin.draft (Spin.pool 4) []).calls Spin.calls).draft.finish
      ((Session.mk Spin.draft (Spin.pool 4) []).calls Spin.calls).pool =
      .ok Spin.file (Spin.pool 16) := by
    rw [Spin.calls_eq]
    exact Spin.finish_eq
  have htexts : Spin.file.pool.TextsFit := by
    have hfits : ∀ c ∈ Spin.constants, c.Fits := by decide +kernel
    have hentries : (Spin.pool 16).pool.entries = (none :: Spin.constants.map some).toArray := by
      decide +kernel
    intro text htext
    change _ ∈ (Spin.pool 16).pool.entries at htext
    rw [hentries, List.mem_toArray] at htext
    obtain ⟨c, hc, heq⟩ := List.mem_map.1 (List.mem_of_ne_of_mem (Option.some_ne_none _) htext)
    cases heq
    exact hfits _ hc
  have hbodies : ∀ m ∈ Spin.file.methods, ∀ a ∈ m.attributes, a.Fits := by
    intro m hm
    rw [List.mem_singleton.1 hm]
    unfold Attribute.Fits
    decide +kernel
  have hslots : ∀ m ∈ ((Session.mk Spin.draft (Spin.pool 4) []).calls Spin.calls).methods,
      ∀ body, m.1.body = some body → SlotsFit (m.1.shape "Spin") body := by
    rw [Spin.calls_eq]
    intro m hm body hbody
    rw [List.mem_singleton.1 hm] at hbody ⊢
    cases hbody
    refine ⟨by decide, fun e he => ?_⟩
    cases he.symm.trans Spin.entry
    exact Nat.zero_le _
  obtain ⟨hread, hshown, -⟩ := ofBytes_encode_finish Spin.new_eq hfinish htexts
    (by rw [Spin.calls_eq]; exact Nat.le_of_ble_eq_true rfl) hbodies hslots
  refine ⟨_, _, _, _, Spin.new_eq, hfinish, hread, hshown, rfl, hshown.annotationTypes.trans ?_⟩
  rw [Spin.calls_eq]
  rfl

end Code

end ProxyForge
