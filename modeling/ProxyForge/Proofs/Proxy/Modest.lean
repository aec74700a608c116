import Mathlib.Data.List.Sort
import Mathlib.Data.String.Basic
import ProxyForge.Proofs.Draft.Room
import ProxyForge.Proofs.Proxy.Assembly
/-!
# Modest classes are generated

How many constants a generated class needs at most can be told from its outline (`Outline.room`).
If there is room for them, the class is generated (`Outline.Typed.exists_classFile`): nothing is
wrong with its code, and no limit of the format is exceeded.
-/

namespace ProxyForge

namespace Proxy

open Code (Attribute.names ClassDraft KnownNames MethodDraft Op throwableClass)
open Interner (Within)
open Outcome

variable {P : String → Prop} {o : Outline} {interfaces : List String} {n : Nat}

/-- **Members with ids of their own are sorted** in one way only. -/
theorem Dispatcher.byId_eq {members : List Planned} (h : (members.map fun m => m.id).Nodup) :
    byId members = members.insertionSort fun a b => a.id ≤ b.id := by
  have htrans : IsTrans Planned fun a b => a.id ≤ b.id := ⟨fun _ _ _ => Int32.le_trans⟩
  have htotal : Std.Total fun a b : Planned => a.id ≤ b.id := ⟨fun _ _ => Int32.le_total _ _⟩
  have hperm : (byId members).Perm (members.insertionSort fun a b => a.id ≤ b.id) :=
    (List.mergeSort_perm members _).trans (List.perm_insertionSort _ members).symm
  refine hperm.eq_of_pairwise (fun a b ha hb hab hba => ?_) (List.pairwise_mergeSort' _ members)
    (List.pairwise_insertionSort _ members)
  exact List.inj_on_of_nodup_map h (mem_byId.1 ha) ((List.mem_insertionSort _).1 hb)
    (Int32.le_antisymm hab hba)

namespace Outline

/-- The texts that a class names. -/
def texts (o : Outline) (interfaces : List String) : List String :=
  [o.thisName, o.superName, o.bindings.marker, sourceFile] ++ Attribute.names ++ interfaces ++
    o.fields.flatMap (fun field => [field.2.name, field.2.descriptor]) ++
    o.methods.flatMap MethodDraft.texts

/-- The indexes that a class takes at most. -/
def room (o : Outline) (interfaces : List String) : Nat :=
  (4 + 2 * interfaces.length) + (2 * o.fields.length +
    ((o.methods.map (MethodDraft.room o.thisName)).sum +
      (1 + (1 + (2 + (interfaces.length + o.fields.length + o.methods.length))))))

/-- **An outline for which room can be told**: no method is too long, and all the names in it are
texts with `P`. -/
structure Modest (P : String → Prop) (o : Outline) (interfaces : List String) : Prop where
  texts : ∀ text ∈ o.texts interfaces, P text
  span : ∀ m ∈ o.methods, ∀ body, m.body = some body → Op.span body.ops ≤ 32767
  known : ∀ m ∈ o.methods, ∀ body, m.body = some body → KnownNames P (m.shape o.thisName) body

/-- A text has no more characters than bytes. -/
theorem length_le_utf8ByteSize (text : String) : text.length ≤ text.utf8ByteSize := by
  rw [← String.utf8Len_toList, ← String.length_toList]
  induction text.toList with
  | nil => exact Nat.le_refl _
  | cons c chars ih =>
    have := c.utf8Size_pos
    rw [String.utf8Len_cons, List.length_cons]
    omega

namespace Modest

theorem method (h : o.Modest P interfaces) {m : MethodDraft} (hm : m ∈ o.methods) :
    m.Modest P o.thisName where
  texts text htext := h.texts text
    (List.mem_append_right _ (List.mem_flatMap.2 ⟨m, hm, htext⟩))
  span := h.span m hm
  known := h.known m hm

/-- **A class** takes the indexes that there is room for. -/
theorem within_classFile (h : o.Modest P interfaces) (access : UInt16) :
    Within (o.room interfaces) P (o.classFile access interfaces) := by
  have hattributes : ∀ name ∈ Attribute.names, P name := fun name hname =>
    h.texts name (by simp [Outline.texts, hname])
  have hfield : ∀ field ∈ o.fields, P field.2.name ∧ P field.2.descriptor := fun field hfield => by
    have hmem := fun text (htext : text ∈ [field.2.name, field.2.descriptor]) =>
      h.texts text (List.mem_append_left _
        (List.mem_append_right _ (List.mem_flatMap.2 ⟨field, hfield, htext⟩)))
    exact ⟨hmem _ (by simp), hmem _ (by simp)⟩
  have hfields : ∀ d, Within (2 * o.fields.length) P (o.fields.foldlM addField d) := fun d => by
    have hall : Within (o.fields.map fun _ => 2).sum P (o.fields.foldlM addField d) :=
      Within.foldlM (Q := fun _ => True) (fun field hmem d _ =>
        ClassDraft.within_addField (hfield field hmem).1 (hfield field hmem).2 field.1)
        (fun _ _ _ _ _ _ _ => trivial) trivial
    rwa [List.map_const', List.sum_replicate_nat, Nat.mul_comm] at hall
  refine (ClassDraft.within_new (h.texts _ (by simp [Outline.texts]))
    (h.texts _ (by simp [Outline.texts]))
    (fun name hname => h.texts name (by simp [Outline.texts, hname])) _).bind_of
    fun b b₁ d hd => ?_
  obtain ⟨hthis, hcount⟩ := ClassDraft.count_new hd
  refine (hfields d).bind_of fun b₁ b₂ d₁ hd₁ => ?_
  obtain ⟨hthis₁, hcount₁⟩ :=
    ClassDraft.count_foldlM (fun _ _ _ _ _ => ClassDraft.count_addField) hd₁
  refine (Within.foldlM (Q := fun d' : ClassDraft => d'.thisName = o.thisName)
    (fun m hm d' hd' => hd' ▸ ClassDraft.within_addMethod hattributes (hd' ▸ h.method hm))
    (fun d' m b d'' b' hd' hrun => (ClassDraft.count_addMethod hrun).1.trans hd')
    (hthis₁.trans hthis)).bind_of fun b₂ b₃ d₂ hd₂ => ?_
  obtain ⟨-, hcount₂⟩ := ClassDraft.count_foldlM (fun _ _ _ _ _ => ClassDraft.count_addMethod) hd₂
  -- neither the source file nor the marker adds to what is counted in the end
  refine (ClassDraft.within_setSourceFile (h.texts _ (by simp [Outline.texts]))).bind_of
    fun b₃ b₄ d₃ hd₃ => ?_
  refine (ClassDraft.within_addAnnotation (h.texts _ (by simp [Outline.texts]))).bind_of
    fun b₄ b₅ d₄ hd₄ => ?_
  have hcounted : d₄.count = interfaces.length + o.fields.length + o.methods.length := by
    rw [ClassDraft.count_addAnnotation hd₄, ClassDraft.count_setSourceFile hd₃, hcount₂, hcount₁,
      hcount]
  exact hcounted ▸ ClassDraft.within_finish hattributes

/-- **An outline with short names.** Bytes are counted, which takes no decoding. -/
theorem of_short (hn : throwableClass.length ≤ n)
    (hbytes : ∀ text ∈ o.texts interfaces, text.utf8ByteSize + 3 ≤ n)
    (hspan : ∀ m ∈ o.methods, ∀ body, m.body = some body → Op.span body.ops ≤ 32767) :
    o.Modest (fun text => text.length ≤ n) interfaces := by
  have htexts : ∀ text ∈ o.texts interfaces, text.length + 3 ≤ n := fun text htext =>
    (Nat.add_le_add_right (length_le_utf8ByteSize text) 3).trans (hbytes text htext)
  refine ⟨fun text htext => Nat.le_of_add_right_le (htexts text htext), hspan,
    fun m hm body hbody => ?_⟩
  · have hmethod : ∀ text ∈ m.texts, text.length + 3 ≤ n := fun text htext =>
      htexts text (List.mem_append_right _ (List.mem_flatMap.2 ⟨m, hm, htext⟩))
    refine KnownNames.of_short hn ?_ ?_ fun text htext => hmethod text ?_
    · exact Nat.le_of_add_right_le (htexts o.thisName (by simp [Outline.texts]))
    · exact Nat.le_of_add_right_le (hmethod m.descriptor (by simp [MethodDraft.texts]))
    · simp [MethodDraft.texts, hbody, htext]

end Modest

/-- **A typed outline is emitted if there is room for it.** -/
theorem Typed.exists_classFile (h : o.Typed) (hmodest : o.Modest P interfaces)
    (hroom : 1 + o.room interfaces ≤ PoolBuilder.limit) (access : UInt16) :
    ∃ file b, o.classFile access interfaces .empty = .ok file b ∧ file.pool.TextsIn P := by
  have hempty : PoolBuilder.empty.count + o.room interfaces ≤ PoolBuilder.limit := hroom
  obtain ⟨file, b, hrun, htexts⟩ := (hmodest.within_classFile access).exists_ok
    (h.faultless_classFile access interfaces) hempty (PoolBuilder.textsIn_empty P)
  obtain ⟨s, -, -, hfinish⟩ := exists_session hrun
  obtain ⟨_, _, _, -, -, -, -, -, rfl⟩ := ClassDraft.finish_ok hfinish
  exact ⟨_, b, hrun, htexts⟩

end Outline

/-! ## Generation -/

variable {g : Generator} {blueprint : Blueprint}

/-- **A blueprint with a typed outline is generated if there is room for it.** -/
theorem exists_generate (ho : blueprint.outline g = .ok o) (h : o.Typed)
    (hmodest : o.Modest P (blueprint.interfaces g.bindings))
    (hroom : 1 + o.room (blueprint.interfaces g.bindings) ≤ PoolBuilder.limit) :
    ∃ a file, generate g blueprint = .ok a ∧ blueprint.classFile g = .ok file ∧
      file.pool.TextsIn P := by
  obtain ⟨file, b, hrun, htexts⟩ :=
    h.exists_classFile hmodest hroom (blueprint.access ||| Access.isSuper)
  have hemit : Blueprint.emit (o.classFile (blueprint.access ||| Access.isSuper)
      (blueprint.interfaces g.bindings)) = .ok file := by
    unfold Blueprint.emit
    rw [hrun]
  exact ⟨_, file, bind_eq_ok.2 ⟨o, ho, bind_eq_ok.2 ⟨file, hemit, rfl⟩⟩,
    bind_eq_ok.2 ⟨o, ho, hemit⟩, htexts⟩

/-- A text of few characters fits. -/
theorem textsFit_of_short {p : Pool} (h : p.TextsIn fun text => text.length ≤ 10922) :
    p.TextsFit := fun text htext => by
  have hbytes := ModifiedUtf8.length_encode_le text
  have := h text htext
  omega

theorem typed_adder : (adder.outlineBelow "demo/Base" lengthwise).Typed :=
  typed_outline isSource_adder (List.forall_mem_nil _)
    (Bindings.wellNamed_ofPackage (.inr (by decide))) outline_adder_eq

/-- There is room for it. -/
theorem generate_adder : ∃ a, generate lengthwise adder = .ok a ∧
    ∀ file, adder.classFile lengthwise = .ok file → file.pool.TextsFit := by
  have hsorted := Dispatcher.byId_eq typed_adder.numbered.ids
  obtain ⟨hspan, htexts, hroom⟩ :
      (∀ m ∈ (adder.outlineBelow "demo/Base" lengthwise).methods, ∀ body ∈ m.body,
        Op.span body.ops ≤ 32767) ∧
      (∀ text ∈ (adder.outlineBelow "demo/Base" lengthwise).texts
        (adder.interfaces lengthwise.bindings), text.utf8ByteSize + 3 ≤ 10922) ∧
      1 + (adder.outlineBelow "demo/Base" lengthwise).room
        (adder.interfaces lengthwise.bindings) ≤ PoolBuilder.limit := by
    simp only [Outline.texts, Outline.room, Outline.methods, Dispatcher.dispatch,
      Dispatcher.dispatchBody, hsorted]
    decide +kernel
  obtain ⟨a, file, ha, hfile, hshort⟩ := exists_generate outline_adder_eq typed_adder
    (.of_short (by decide) htexts hspan) hroom
  refine ⟨a, ha, fun file' hfile' => ?_⟩
  cases hfile.symm.trans hfile'
  exact textsFit_of_short hshort

/-- Its members are those of its plan. -/
theorem members_adder {a : Artifact} (h : generate lengthwise adder = .ok a) :
    a.members = (adder.outlineBelow "demo/Base" lengthwise).plan.members := by
  obtain ⟨o, -, -, houtline, -, -, hmembers, -⟩ := generate_ok h
  cases outline_adder_eq.symm.trans houtline
  exact hmembers

/-- A class that is asked to implement the dispatcher, as every generated class does. -/
def redundant (name : String) : Blueprint :=
  .ofSurface name ⟨[Contract.ofInterface "dev.interpose.runtime.Dispatcher"]⟩

variable {name : String}

theorem outline_redundant (hname : Name.isBinary name) :
    (redundant name).outline .standard =
      .ok ((redundant name).outlineBelow "java/lang/Object" .standard) := by
  have hkeys : Plan.keys (Plan.picked (redundant name).surface) =
      ["equals(Ljava/lang/Object;)Z", "hashCode()I", "toString()Ljava/lang/String;"] := by
    change Plan.keys (Plan.picked ⟨[Contract.ofInterface "dev.interpose.runtime.Dispatcher"]⟩) = _
    decide +kernel
  exact outline_of_keys hname (Nat.zero_le _) hkeys (by decide) (by decide +kernel) rfl

theorem typed_redundant (hname : Name.isBinary name) :
    ((redundant name).outlineBelow "java/lang/Object" .standard).Typed := by
  have hsource : (redundant name).surface.IsSource := by
    unfold redundant Blueprint.ofSurface
    refine ⟨?_, ?_, ?_⟩ <;> simp [Contract.ofInterface, Surface.bases]
  exact typed_outline hsource (List.forall_mem_nil _)
    (Bindings.wellNamed_ofPackage (.inr (by decide))) (outline_redundant hname)

end Proxy

end ProxyForge
