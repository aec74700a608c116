import ProxyForge.Proofs.ClassFile.Annotations
import ProxyForge.Provider.Introspection
/-!
# How generated classes are recognized

A class file is taken for a generated class if the marker is the type of one of its annotations and
it lists the dispatcher. The annotations meant are those of the attribute itself: one that is a value
of another is passed over, and marks nothing (`LoadedType.isGenerated_iff_of_encoded`). And an
attribute that holds anything but annotations marks nothing either
(`LoadedType.exists_marked_of_isGenerated`).
-/

namespace ProxyForge

open Outcome Decoder

namespace Provider

namespace LoadedType

variable {c : ClassFile} {bindings : Proxy.Bindings} {a : Attribute}
  {annotations : List Annotation} {names : List String}

/-- What can be read of a class file says whether it is a generated class. A list that cannot be read
counts as empty. -/
theorem isGenerated_ofClassFile_iff : (ofClassFile c).isGenerated bindings = true ↔
    (∃ names, c.annotationTypes = .ok names ∧ bindings.marker ∈ names) ∧
      ∃ interfaces, c.interfaceNames = .ok interfaces ∧ bindings.dispatcher ∈ interfaces := by
  have hlist (found : Except FormatError (List String)) (s : String) :
      (found.toOption.getD []).contains s = true ↔ ∃ xs, found = .ok xs ∧ s ∈ xs := by
    cases found <;> simp [Except.toOption]
  unfold isGenerated ofClassFile
  rw [Bool.and_eq_true, hlist, hlist]

theorem annotationTypes_of_found
    (hfound : c.findAttribute Attribute.annotationsName = .ok (some a)) :
    c.annotationTypes = Annotation.typesOf c.pool a.body := by
  unfold ClassFile.annotationTypes
  rw [hfound]
  rfl

/-- **The types of the annotations, in their order, and no others.** If the attribute holds
annotations, with whatever values, their types are what is read of it, up to its last byte. So the
class is taken for a generated one exactly if one of these annotations is the marker, which a value
of another one is not, and the dispatcher is an interface that it lists. -/
theorem isGenerated_iff_of_encoded
    (hfound : c.findAttribute Attribute.annotationsName = .ok (some a))
    (hbody : a.body = Annotation.encodeAll annotations) (hfits : Annotation.AllFit annotations)
    (hnames : Annotation.types c.pool annotations = .ok names) :
    c.annotationTypes = .ok names ∧
    counted ( Annotation.decodeType c.pool (a.body.length + 1)) (.start a.body) =
      .ok names ⟨a.body.length, []⟩ ∧
    ((ofClassFile c).isGenerated bindings = true ↔
      (∃ x ∈ annotations, c.pool.utf8 x.type = .ok bindings.marker) ∧
        ∃ interfaces, c.interfaceNames = .ok interfaces ∧ bindings.dispatcher ∈ interfaces) := by
  have htypes : c.annotationTypes = .ok names := by
    rw [annotationTypes_of_found hfound]
    exact Annotation.typesOf_eq_ok_iff.2 ⟨annotations, hfits, hbody, hnames⟩
  refine ⟨htypes, ?_, ?_⟩
  · rw [hbody]
    have hreads : ReadsAt _ 0 _ names := Annotation.reads_types hfits hnames (Nat.le_succ _)
    have hall := hreads []
    rwa [List.append_nil, Nat.zero_add] at hall
  · rw [isGenerated_ofClassFile_iff, ← mem_mapM_iff hnames, htypes]
    simp

/-- **What is taken for a generated class is marked**, whatever bytes its attributes are. -/
theorem exists_marked_of_isGenerated (h : (ofClassFile c).isGenerated bindings = true) :
    ∃ a annotations, c.findAttribute Attribute.annotationsName = .ok (some a) ∧
      a.body = Annotation.encodeAll annotations ∧
      ∃ x ∈ annotations, c.pool.utf8 x.type = .ok bindings.marker := by
  obtain ⟨⟨names, htypes, hmarker⟩, -⟩ := isGenerated_ofClassFile_iff.1 h
  obtain ⟨found, hfound, hrest⟩ := bind_eq_ok.1 htypes
  cases found with
  | none =>
    cases hrest
    cases hmarker
  | some a =>
    obtain ⟨annotations, -, hbody, hnames⟩ := Annotation.typesOf_eq_ok_iff.1 hrest
    exact ⟨a, annotations, hfound, hbody, (mem_mapM_iff hnames _).1 hmarker⟩

/-- A class with annotations, of which the marker may be one, and the dispatcher among its
interfaces. -/
def carrying (annotations : List Annotation) : ClassFile where
  minor := 0
  major := 52
  pool := ⟨#[none, some (.utf8 "A"), some (.classRef 1), some (.utf8 "LNote;"),
    some (.utf8 "Lr/Generated;"), some (.utf8 "r/Dispatcher"), some (.classRef 5),
    some (.utf8 "RuntimeVisibleAnnotations")]⟩
  access := 33
  thisClass := 2
  superClass := 0
  interfaces := [6]
  fields := []
  methods := []
  attributes := [⟨7, Annotation.encodeAll annotations⟩]

/-- A note that has the marker, and a number, in an array. -/
def note : Annotation :=
  ⟨3, [(1, .array [.nested 4 [], .number .int 5])]⟩

/-- In the note the marker marks nothing; beside it, it does. -/
theorem isGenerated_iff_of_encoded_note :
    (ofClassFile (carrying [note])).isGenerated ⟨"r"⟩ = false ∧
      (ofClassFile (carrying [note, ⟨4, []⟩])).isGenerated ⟨"r"⟩ = true := by
  have hfound (annotations : List Annotation) :
      (carrying annotations).findAttribute Attribute.annotationsName =
        .ok (some ⟨7, Annotation.encodeAll annotations⟩) := rfl
  have hinterfaces (annotations : List Annotation) :
      (carrying annotations).interfaceNames = .ok ["r/Dispatcher"] := rfl
  have hnote : note.Fits := by
    refine ⟨by decide, List.forall_mem_singleton.2 (.array (by decide) ?_)⟩
    exact List.forall_mem_cons.2 ⟨.nested (by decide) (List.forall_mem_nil _),
      List.forall_mem_singleton.2 (.number .int 5)⟩
  have hmark : Annotation.Fits ⟨4, []⟩ := ⟨by decide, List.forall_mem_nil _⟩
  constructor
  · have hnames : Annotation.types (carrying [note]).pool [note] = .ok ["LNote;"] := rfl
    refine Bool.eq_false_iff.2 fun h => ?_
    obtain ⟨⟨x, hx, hmarker⟩, -⟩ := (isGenerated_iff_of_encoded (hfound [note]) rfl
      ⟨by decide, List.forall_mem_singleton.2 hnote⟩ hnames).2.2.1 h
    rw [List.mem_singleton.1 hx] at hmarker
    exact absurd hmarker (by decide)
  · have hnames : Annotation.types (carrying [note, ⟨4, []⟩]).pool [note, ⟨4, []⟩] =
        .ok ["LNote;", "Lr/Generated;"] := rfl
    refine (isGenerated_iff_of_encoded (hfound [note, ⟨4, []⟩]) rfl
      ⟨by decide, List.forall_mem_cons.2 ⟨hnote, List.forall_mem_singleton.2 hmark⟩⟩ hnames).2.2.2
      ⟨⟨⟨4, []⟩, List.mem_cons_of_mem _ List.mem_cons_self, by decide⟩, _, hinterfaces _, by decide⟩

end LoadedType

end Provider

end ProxyForge
