import ProxyForge.Proofs.ClassFile.Annotations
import ProxyForge.Proofs.ClassFile.RoundTrip
import ProxyForge.Proofs.Growth
/-!
# Attributes that were added

An attribute is written while the pool still grows. What is said here of one holds in every later
pool (`b'.Grows later`): its name is found there, and its body is read back as what was asked for.
-/

namespace ProxyForge

open Outcome Decoder

/-- Things of one size, one behind the other. -/
theorem Bytes.length_flatMap {α : Type} {enc : α → Bytes} {n : Nat} (h : ∀ x, (enc x).length = n)
    (xs : List α) : (xs.flatMap enc).length = n * xs.length := by
  induction xs with
  | nil => rfl
  | cons x xs ih => rw [List.flatMap_cons, List.length_append, h, ih, List.length_cons, Nat.mul_succ,
      Nat.add_comm]

namespace Code

namespace ClassDraft

variable {b b' later : PoolBuilder}

/-! ## One attribute -/

/-- **An attribute with its name**, whatever is added later. -/
theorem attributeOf_ok {name : String} {body : Bytes} {a : Attribute}
    (h : attributeOf name body b = .ok a b') :
    a.body = body ∧ ∀ later, b'.Grows later → later.pool.utf8 a.nameIndex = .ok name := by
  obtain ⟨i, b₁, hname, hresult⟩ := bind_run_ok.1 h
  cases hresult
  exact ⟨rfl, fun later hlater => hlater.utf8 (Interner.utf8_ok hname).2⟩

/-- **At most one attribute**, which has a name and a property. -/
def AtMostOne (pool : Pool) (name : String) (attributes : List Attribute) : Prop :=
  attributes = [] ∨ ∃ a, attributes = [a] ∧ pool.utf8 a.nameIndex = .ok name

theorem AtMostOne.length_le {pool : Pool} {name : String} {attributes : List Attribute}
    (h : AtMostOne pool name attributes) : attributes.length ≤ 1 := by
  rcases h with rfl | ⟨a, rfl, -⟩
  · exact Nat.zero_le 1
  · exact Nat.le_refl 1

/-- A name that no attribute has is looked for in those behind them. -/
theorem AtMostOne.find_append {pool : Pool} {name other : String}
    {attributes rest : List Attribute} (h : AtMostOne pool other attributes)
    (hne : other ≠ name) :
    Attribute.find pool name (attributes ++ rest) = Attribute.find pool name rest := by
  rcases h with rfl | ⟨a, rfl, ha⟩
  · rfl
  · exact Attribute.find_cons_of_ne ha hne

/-! ## Declared exceptions -/

/-- What is read of declared exceptions. -/
def thrownBy (pool : Pool) (attributes : List Attribute) : Except FormatError (List String) := do
  match ← Attribute.find pool Attribute.exceptionsName attributes with
  | some a => (Decoder.counted do Decoder.lift (pool.className (← Decoder.u16))).run a.body
  | none => return []

/-- **Declared exceptions are read back.** -/
theorem exceptionsAttribute_ok {exceptions : List String} {attributes : List Attribute}
    (h : exceptionsAttribute exceptions b = .ok attributes b') (hlater : b'.Grows later) :
    AtMostOne later.pool Attribute.exceptionsName attributes ∧
      (∀ a ∈ attributes, a.Fits) ∧ thrownBy later.pool attributes = .ok exceptions := by
  unfold exceptionsAttribute at h
  split at h
  · rename_i hempty
    cases h
    refine ⟨.inl rfl, nofun, ?_⟩
    rw [List.isEmpty_iff.1 hempty]
    rfl
  · obtain ⟨count, b₁, hcount, hrest⟩ := bind_run_ok.1 h
    obtain ⟨classes, b₂, hclasses, hrest₂⟩ := bind_run_ok.1 hrest
    obtain ⟨a, b₃, ha, hresult⟩ := bind_run_ok.1 hrest₂
    cases hresult
    obtain ⟨hbody, hname⟩ := attributeOf_ok ha
    obtain ⟨hle, rfl, rfl⟩ := Interner.count16_ok hcount
    have hgrows : b₂.Grows later := ((extending_attributeOf _ _).of_ok ha).grows.trans hlater
    have hnames := (Interner.mapM_ok
      (R := fun b (name : String) (i : UInt16) => b.pool.className i = .ok name)
      (fun hg hn => hg.className hn) (fun _ hi => Interner.classRef_ok hi) hclasses).2
    have hlength : exceptions.length = classes.length := hnames.length_eq
    have hread : ReadsAt
        (Decoder.counted do Decoder.lift (later.pool.className (← Decoder.u16))) 0 a.body
        exceptions := by
      rw [hbody, hlength]
      exact ReadsAt.counted_forall₂ (by omega)
        (hnames.flip.imp fun i name hi offset => .found (hgrows.className hi))
    refine ⟨.inr ⟨a, rfl, hname later hlater⟩, fun a' ha' => ?_, ?_⟩
    · rw [List.mem_singleton.1 ha', Attribute.Fits, hbody, List.length_append,
        Bytes.length_flatMap (n := 2) fun _ => rfl]
      change 2 + _ < _
      omega
    · exact bind_eq_ok.2 ⟨some a, Attribute.find_cons_of_eq (hname later hlater), hread.run⟩

/-! ## Frames -/

/-- **Frames are read back**, if their table is. -/
theorem stackMap_ok {frames : List Frame} {attributes : List Attribute}
    (h : stackMap frames b = .ok attributes b') (hlater : b'.Grows later) :
    AtMostOne later.pool Attribute.stackMapName attributes ∧
      (Frame.decodeTable (Frame.encodeTable frames) = .ok frames →
        ∀ code : CodeBody, code.attributes = attributes → code.frames later.pool = .ok frames) := by
  unfold stackMap at h
  split at h
  · rename_i hempty
    cases h
    refine ⟨.inl rfl, fun _ code hcode => ?_⟩
    unfold CodeBody.frames
    rw [hcode, List.isEmpty_iff.1 hempty]
    rfl
  · obtain ⟨count, b₁, -, hrest⟩ := bind_run_ok.1 h
    obtain ⟨a, b₂, ha, hresult⟩ := bind_run_ok.1 hrest
    cases hresult
    obtain ⟨hbody, hname⟩ := attributeOf_ok ha
    refine ⟨.inr ⟨a, rfl, hname later hlater⟩, fun hread code hcode => ?_⟩
    unfold CodeBody.frames
    rw [hcode]
    refine bind_eq_ok.2 ⟨some a, Attribute.find_cons_of_eq (hname later hlater), ?_⟩
    exact (congrArg Frame.decodeTable hbody).trans hread

/-! ## The source file -/

/-- What is read of the source file. -/
def sourceOf (pool : Pool) (attributes : List Attribute) : Except FormatError (Option String) := do
  match ← Attribute.find pool Attribute.sourceFileName attributes with
  | some a => some <$> (do Decoder.lift (pool.utf8 (← Decoder.u16)) : Decoder String).run a.body
  | none => return none

/-- **The source file is read back**, if no other attribute has its name. -/
theorem sourceAttribute_ok {d : ClassDraft} {attributes rest : List Attribute}
    {name : Option String} (h : d.sourceAttribute b = .ok attributes b') (hlater : b'.Grows later)
    (hname : Option.Rel (fun i name => later.pool.utf8 i = .ok name) d.sourceFile name)
    (hrest : Attribute.find later.pool Attribute.sourceFileName rest = .ok none) :
    AtMostOne later.pool Attribute.sourceFileName attributes ∧ (∀ a ∈ attributes, a.Fits) ∧
      sourceOf later.pool (attributes ++ rest) = .ok name := by
  unfold sourceAttribute at h
  cases hsource : d.sourceFile with
  | none =>
    rw [hsource] at hname h
    cases hname
    cases h
    exact ⟨.inl rfl, nofun, bind_eq_ok.2 ⟨none, hrest, rfl⟩⟩
  | some i =>
    rw [hsource] at hname h
    cases hname with
    | some hutf8 =>
      obtain ⟨a, b₁, ha, hresult⟩ := bind_run_ok.1 h
      cases hresult
      obtain ⟨hbody, hname⟩ := attributeOf_ok ha
      refine ⟨.inr ⟨a, rfl, hname later hlater⟩, fun a' ha' => ?_, ?_⟩
      · rw [List.mem_singleton.1 ha', Attribute.Fits, hbody]
        change 2 < 2 ^ 32
        decide
      · refine bind_eq_ok.2 ⟨some a, Attribute.find_cons_of_eq (hname later hlater), ?_⟩
        have hread : ReadsAt (do Decoder.lift (later.pool.utf8 (← Decoder.u16))) 0 a.body _ :=
          hbody ▸ ReadsAt.found hutf8
        dsimp only
        rw [hread.run]
        rfl

/-! ## Annotations -/

/-- What is read of annotations. -/
def annotationsOf (pool : Pool) (attributes : List Attribute) :
    Except FormatError (List String) := do
  match ← Attribute.find pool Attribute.annotationsName attributes with
  | some a => Annotation.typesOf pool a.body
  | none => return []

/-- **Annotations are read back**, in their order. -/
theorem annotationsAttribute_ok {d : ClassDraft} {attributes : List Attribute}
    {names : List String} (h : d.annotationsAttribute b = .ok attributes b')
    (hlater : b'.Grows later) (hlen : d.annotations.length ≤ 65535)
    (hnames : List.Forall₂ (fun i name => later.pool.utf8 i = .ok name) d.annotations.reverse
      names) :
    AtMostOne later.pool Attribute.annotationsName attributes ∧ (∀ a ∈ attributes, a.Fits) ∧
      annotationsOf later.pool attributes = .ok names := by
  unfold annotationsAttribute at h
  split at h
  · rename_i hempty
    cases h
    rw [List.isEmpty_iff.1 hempty] at hnames
    cases hnames
    exact ⟨.inl rfl, nofun, rfl⟩
  · obtain ⟨a, b₁, ha, hresult⟩ := bind_run_ok.1 h
    cases hresult
    obtain ⟨hbody, hname⟩ := attributeOf_ok ha
    have hlen' : d.annotations.reverse.length ≤ 65535 := by rwa [List.length_reverse]
    refine ⟨.inr ⟨a, rfl, hname later hlater⟩, fun a' ha' => ?_, ?_⟩
    · rw [List.mem_singleton.1 ha', Attribute.Fits, hbody, List.length_append,
        Bytes.length_flatMap (n := 4) fun _ => rfl]
      change 2 + _ < _
      omega
    · refine bind_eq_ok.2 ⟨some a, Attribute.find_cons_of_eq (hname later hlater), ?_⟩
      have hread : ReadsAt (Decoder.counted ( Annotation.decodeType later.pool (a.body.length + 1)))
          0 a.body names := by
        conv => enter [3]; rw [hbody]
        exact ReadsAt.counted_forall₂ hlen'
          (hnames.imp fun i name hi offset =>
            Annotation.reads_type_of_pairs hi fun _ => (ReadsAt.u16 0).bind (.pure ()))
      exact hread.run_whole

end ClassDraft

end Code

end ProxyForge
