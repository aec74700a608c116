import ProxyForge.Code.ClassDraft
import ProxyForge.Proofs.Inference.Certificate
import ProxyForge.Proofs.Layout.Encoding
/-!
# Classes with nothing wrong in their code

A class that is emitted may run into a limit of the format, or its code may be wrong. A computation
is `Interner.Faultless` if it never fails in the second way. Code with a certificate is emitted
so (`ClassDraft.faultless_codeAttribute`), and so is a method that has such code
(`ClassDraft.faultless_addMethod`).
-/

namespace ProxyForge

open Outcome

/-- Does the error say that code is wrong? -/
def EmissionError.isDefect : EmissionError → Bool
  | invalidCode _ _ => true
  | _ => false

namespace Interner

variable {α β : Type} {m : Interner α}

/-- **Nothing is found wrong with code.** -/
def Faultless (m : Interner α) : Prop :=
  ∀ (b : PoolBuilder) (e : EmissionError) (b' : PoolBuilder), m b = .error e b' →
    e.isDefect = false

theorem OnlyFull.faultless (hm : OnlyFull m) : Faultless m := by
  intro b e b' h
  obtain ⟨count, rfl⟩ := hm b e b' h
  rfl

namespace Faultless

theorem pure (a : α) : Faultless (Pure.pure a : Interner α) :=
  nofun

/-- The second step may count on what the first one gave. -/
theorem bind_of {f : α → Interner β} (hm : Faultless m)
    (hf : ∀ (b b' : PoolBuilder) (a : α), m b = .ok a b' → Faultless (f a)) :
    Faultless (m >>= f) := by
  intro b e b' h
  cases hrun : m b with
  | ok a b₁ =>
    rw [bind_run_eq hrun] at h
    exact hf b b₁ a hrun _ _ _ h
  | error e₁ b₁ =>
    rw [bind_run_error hrun] at h
    cases h
    exact hm _ _ _ hrun

theorem bind {f : α → Interner β} (hm : Faultless m) (hf : ∀ a, Faultless (f a)) :
    Faultless (m >>= f) :=
  hm.bind_of fun _ _ a _ => hf a

theorem lift {x : Except EmissionError α} (h : ∀ e, x = .error e → e.isDefect = false) :
    Faultless (Interner.lift x) := by
  intro b e b' hrun
  cases x with
  | ok a => cases hrun
  | error e =>
    cases hrun
    exact h _ rfl

theorem count16 (what : Counted) (count : Nat) : Faultless (Interner.count16 what count) := by
  intro b e b' h
  unfold Interner.count16 at h
  split at h
  · cases h
  · cases h
    rfl

theorem mapM {f : α → Interner β} (hf : ∀ x, Faultless (f x)) (xs : List α) :
    Faultless (xs.mapM f) := by
  induction xs with
  | nil => exact pure []
  | cons x xs ih =>
    rw [List.mapM_cons]
    exact (hf x).bind fun _ => ih.bind fun _ => pure _

theorem foldlM {f : β → α → Interner β} {xs : List α} (hf : ∀ x ∈ xs, ∀ y, Faultless (f y x))
    (y : β) : Faultless (xs.foldlM f y) := by
  induction xs generalizing y with
  | nil => exact pure y
  | cons x xs ih =>
    rw [List.foldlM_cons]
    exact (hf x List.mem_cons_self y).bind fun y' =>
      ih (fun x' hx' => hf x' (List.mem_cons_of_mem x hx')) y'

theorem utf8 (text : String) : Faultless (Interner.utf8 text) :=
  (OnlyFull.constant _).faultless

theorem classRef (name : String) : Faultless (Interner.classRef name) :=
  (OnlyFull.classRef name).faultless

end Faultless

theorem OnlyFull.nameAndType (name descriptor : String) :
    OnlyFull (Interner.nameAndType name descriptor) :=
  (constant _).bind fun _ => (constant _).bind fun _ => constant _

end Interner

namespace Code

open Interner (Faultless OnlyFull)

variable {op : Op Nat} {method : String} {p : Program} {shape : MethodHeader} {body : Body}
  {e : TypeState}

/-! ## Layout -/

/-- **An instruction that can be written**, as far as its operands are concerned: a call through an
interface has few arguments, and no key of a switch is repeated. -/
def Op.Writable {L : Type} : Op L → Prop
  | .invoke .interface method => ∃ count, Op.argumentCount method.descriptor = .ok count
  | .lookupSwitch _ cases => (cases.map (·.1)).Nodup
  | _ => True

theorem Op.writable_resolve {L M ε : Type} {place : L → Except ε M} {op : Op L} {op' : Op M}
    (h : op.resolve place = .ok op') : op'.Writable = op.Writable :=
  Op.resolve_agrees (f := Op.Writable) (fun op => by
    cases op with
    | invoke kind method => cases kind <;> rfl
    | lookupSwitch fallback cases => exact congrArg List.Nodup List.map_map
    | _ => rfl) h

theorem Op.onlyFull_intern {L : Type} (op : Op L) : OnlyFull op.intern := by
  have hfield : ∀ f, OnlyFull (Op.internField f) := fun f =>
    (OnlyFull.classRef _).bind fun _ => (OnlyFull.nameAndType _ _).bind fun _ => .constant _
  cases op with
  | int value =>
    simp only [Op.intern]
    split
    · exact .pure _
    · exact .constant _
  | string value => exact (OnlyFull.constant _).bind fun _ => .constant _
  | classOf name | new name | newArray name | cast name => exact .classRef name
  | getStatic f | putStatic f | getField f | putField f => exact hfield f
  | invoke kind m =>
    exact (OnlyFull.classRef _).bind fun _ => (OnlyFull.nameAndType _ _).bind fun _ => .constant _
  | _ => exact .pure _

/-- Keys that are not repeated are not repeated when they are sorted. -/
theorem Op.hasRepeatedKey_sortCases {L : Type} {cases : List (Int32 × L)}
    (h : (cases.map (·.1)).Nodup) : Op.hasRepeatedKey (Op.sortCases cases) = false := by
  have hsorted : ((Op.sortCases cases).map (·.1)).Nodup :=
    ((List.mergeSort_perm cases _).map _).nodup_iff.2 h
  generalize Op.sortCases cases = sorted at hsorted
  induction sorted with
  | nil => rfl
  | cons a rest ih =>
    cases rest with
    | nil => rfl
    | cons b rest =>
      obtain ⟨ha, hrest⟩ := List.nodup_cons.1 hsorted
      rw [Op.hasRepeatedKey, Bool.or_eq_false_iff]
      exact ⟨decide_eq_false fun heq => ha (List.mem_cons.2 (.inl heq)), ih hrest⟩

/-- **Writing an instruction finds nothing wrong.** -/
theorem Op.isDefect_of_encode (h : op.Writable) {offsets : Array Nat} {constant : UInt16}
    {offset : Nat} {err : EmissionError}
    (herr : op.encode method offsets constant offset = .error err) : err.isDefect = false := by
  cases op with
  | jump kind target =>
    simp only [Op.encode, Op.encodeJump] at herr
    split at herr
    · cases herr
    · cases herr
      rfl
  | invoke kind m =>
    cases kind with
    | interface =>
      obtain ⟨count, hcount⟩ := h
      simp [Op.encode, Op.encodeCall, hcount, Except.mapError] at herr
    | _ => cases herr
  | lookupSwitch fallback cases =>
    simp only [Op.encode, Op.encodeSwitch, Op.hasRepeatedKey_sortCases h] at herr
    cases herr
  | ret kind => cases kind <;> cases herr
  | _ => cases herr

/-- **Laying a program out finds nothing wrong.** -/
theorem Layout.faultless_ofProgram (h : ∀ op ∈ p.ops, op.Writable) :
    Faultless (Layout.ofProgram method p) := by
  refine ((OnlyFull.mapM Op.onlyFull_intern _).faultless).bind fun constants => ?_
  refine (Faultless.lift fun err herr => ?_).bind fun offsets =>
    (Faultless.lift fun err herr => ?_).bind fun _ => .pure _
  · unfold Layout.offsetsOf at herr
    cases hoffsets : Layout.offsetsFrom 0 #[] (p.ops.toList.zip constants) with
    | ok _ =>
      rw [hoffsets] at herr
      cases herr
    | error _ =>
      rw [hoffsets] at herr
      cases herr
      rfl
  · rcases bind_eq_error.1 herr with hpieces | ⟨pieces, -, hresult⟩
    · obtain ⟨⟨⟨op, constant⟩, i⟩, hmem, hencode⟩ := exists_of_mapM_error hpieces
      have hop := List.of_mem_zip (List.fst_mem_of_mem_zipIdx hmem)
      exact Op.isDefect_of_encode (h op (Array.mem_toList_iff.1 hop.1)) hencode
    · cases hresult

/-! ## Methods -/

namespace ClassDraft

theorem faultless_attributeOf (name : String) (bytes : Bytes) :
    Faultless (attributeOf name bytes) :=
  (Faultless.utf8 name).bind fun _ => .pure _

theorem faultless_handlerEntry (offsets : Array Nat) (h : Handler Nat) :
    Faultless (handlerEntry offsets h) := by
  unfold handlerEntry
  dsimp only
  split
  · exact (Faultless.classRef _).bind fun _ => .pure _
  · exact (Faultless.pure _).bind fun _ => .pure _

theorem faultless_stackMap (frames : List Frame) : Faultless (stackMap frames) := by
  unfold stackMap
  split
  · exact .pure _
  · exact (Faultless.count16 _ _).bind fun _ => (faultless_attributeOf _ _).bind fun _ => .pure _

theorem faultless_exceptionsAttribute (exceptions : List String) :
    Faultless (exceptionsAttribute exceptions) := by
  unfold exceptionsAttribute
  split
  · exact .pure _
  · exact (Faultless.count16 _ _).bind fun _ =>
      (Faultless.mapM Faultless.classRef _).bind fun _ =>
        (faultless_attributeOf _ _).bind fun _ => .pure _

/-- **Nothing is wrong with a body**: its labels can be resolved, its instructions be written, and
whenever it is laid out there is a certificate for it. -/
structure Sound (shape : MethodHeader) (body : Body) : Prop where
  program : ∃ p, body.resolve = .ok p
  writable : ∀ op ∈ body.ops, op.Writable
  entry : ∃ e, TypeState.entry shape = .ok e
  certificate : ∀ p l e, LaidOut shape body p l → TypeState.entry shape = .ok e →
    ∃ ss, Certificate shape e body ss

/-- **The code of a sound body is emitted** unless a limit is exceeded. -/
theorem faultless_codeAttribute (h : Sound shape body) : Faultless (codeAttribute shape body) := by
  obtain ⟨p, hp⟩ := h.program
  obtain ⟨e, he⟩ := h.entry
  have hprogram : body.program shape.name = .ok p := mapError_eq_ok.2 hp
  have hops : ∀ op ∈ p.ops, op.Writable := by
    intro op' hop'
    obtain ⟨i, hi⟩ := Array.mem_iff_getElem?.1 hop'
    obtain ⟨op, hop, hresolve⟩ := (Body.resolve_ops hp).2 i op' hi
    exact Op.writable_resolve hresolve ▸ h.writable op (List.mem_of_getElem? hop)
  unfold codeAttribute
  rw [hprogram]
  refine (Faultless.pure p).bind_of fun b b' p' hpure => ?_
  cases hpure
  refine (Layout.faultless_ofProgram hops).bind_of fun b b' l hlayout => ?_
  have hl : LaidOut shape body p l := ⟨hprogram, b, b', hlayout⟩
  obtain ⟨ss, hcertificate⟩ := h.certificate p l e hl he
  refine (hcertificate.onlyFull_ofProgram hl he).faultless.bind fun _ => ?_
  exact (Faultless.count16 _ _).bind fun _ =>
    (Faultless.mapM (faultless_handlerEntry _) _).bind fun _ =>
      (faultless_stackMap _).bind fun _ => faultless_attributeOf _ _

/-! ## Classes -/

/-- **A method whose body is sound is added** unless a limit is exceeded. -/
theorem faultless_addMethod (d : ClassDraft) (m : MethodDraft)
    (h : ∀ body, m.body = some body → Sound (m.shape d.thisName) body) :
    Faultless (d.addMethod m) := by
  refine (Faultless.utf8 _).bind fun _ => (Faultless.utf8 _).bind fun _ => ?_
  dsimp only
  split
  · rename_i body hbody
    exact (faultless_codeAttribute (h body hbody)).bind fun _ => (Faultless.pure _).bind fun _ =>
      (faultless_exceptionsAttribute _).bind fun _ => .pure _
  · exact (Faultless.pure _).bind fun _ => (faultless_exceptionsAttribute _).bind fun _ => .pure _

theorem faultless_finish (d : ClassDraft) : Faultless d.finish := by
  have hsource : Faultless d.sourceAttribute := by
    unfold sourceAttribute
    split
    · exact .pure _
    · exact (faultless_attributeOf _ _).bind fun _ => .pure _
  have hannotations : Faultless d.annotationsAttribute := by
    unfold annotationsAttribute
    split
    · exact .pure _
    · exact (faultless_attributeOf _ _).bind fun _ => .pure _
  refine hsource.bind fun _ => hannotations.bind fun _ => ?_
  refine (Faultless.count16 _ _).bind fun _ => (Faultless.count16 _ _).bind fun _ =>
    (Faultless.count16 _ _).bind fun _ => ?_
  intro b e b' h
  cases h

end ClassDraft

end Code

end ProxyForge
