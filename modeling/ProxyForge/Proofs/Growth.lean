import ProxyForge.Code.ClassDraft
import ProxyForge.Proofs.ClassFile.Pool
import ProxyForge.Proofs.Interning
/-!
# How pools grow

A computation that asks for indexes pushes constants behind those that are there, also when it
fails later (`Interner.Extending`). So the pool of a class file lists constants, and what was
looked up before a step that fails is found after it.
-/

namespace ProxyForge

namespace PoolBuilder

variable {b b' b'' : PoolBuilder}

/-- **More constants were pushed**, none or some. -/
def Extends (b b' : PoolBuilder) : Prop :=
  ∃ cs : List Constant, b'.pool.entries = cs.foldl Pool.push b.pool.entries

namespace Extends

theorem refl (b : PoolBuilder) : b.Extends b :=
  ⟨[], rfl⟩

theorem trans (h : b.Extends b') (h' : b'.Extends b'') : b.Extends b'' := by
  obtain ⟨cs, hcs⟩ := h
  obtain ⟨cs', hcs'⟩ := h'
  exact ⟨cs ++ cs', by rw [List.foldl_append, ← hcs, hcs']⟩

/-- What stands in the pool stays there. -/
theorem grows (h : b.Extends b') : b.Grows b' := by
  obtain ⟨cs, hcs⟩ := h
  intro i c hc
  rw [Pool.get_eq_ok] at hc ⊢
  rw [hcs, Pool.getElem?_foldl_push cs (Array.getElem?_eq_some_iff.1 hc).1, hc]

end Extends

/-- A pool that was built lists constants. -/
theorem lists_of_extends (h : empty.Extends b) : ∃ cs, b.pool.Lists cs :=
  h

/-- Nothing stands at index zero. -/
theorem get_zero_of_extends (h : empty.Extends b) (c : Constant) : b.pool.get 0 ≠ .ok c := by
  obtain ⟨cs, hcs⟩ := h
  rw [Ne, Pool.get_eq_ok, hcs]
  have hzero : (cs.foldl Pool.push empty.pool.entries)[0]? = empty.pool.entries[0]? :=
    Pool.getElem?_foldl_push cs (by decide)
  change ¬ (cs.foldl Pool.push empty.pool.entries)[0]? = _
  rw [hzero]
  exact nofun

/-- A constant that does not stand in the pool has no index. -/
theorem index_eq_none {c : Constant} (h : some c ∉ b.pool.entries) : b.index[c]? = none := by
  cases hi : b.index[c]? with
  | none => rfl
  | some i => exact absurd (Array.mem_of_getElem? ((b.index_iff c i).1 hi)) h

/-- The pool with a constant behind the others, if that is new and fits. -/
def add (b : PoolBuilder) (c : Constant) : PoolBuilder :=
  if h : some c ∉ b.pool.entries ∧ b.count + c.width ≤ limit then
    b.push c (index_eq_none h.1) h.2
  else b

end PoolBuilder

namespace Interner

variable {α β : Type}

/-- A constant that is new gets the next index. -/
theorem constant_add {b : PoolBuilder} {c : Constant} (hnew : some c ∉ b.pool.entries)
    (hfits : b.count + c.width ≤ PoolBuilder.limit) :
    constant c b = .ok (UInt16.ofNat b.count) (b.add c) := by
  unfold constant PoolBuilder.add
  split
  · rename_i index hindex
    rw [PoolBuilder.index_eq_none hnew] at hindex
    cases hindex
  · rw [dif_pos (And.intro hnew hfits)]
    exact dif_pos hfits

/-- A constant that is there keeps its index. -/
theorem constant_of_getElem? {b : PoolBuilder} {c : Constant} {i : UInt16}
    (h : b.pool.entries[i.toNat]? = some (some c)) : constant c b = .ok i b := by
  have hindex := (b.index_iff c i).2 h
  unfold constant
  split
  · rename_i i' hindex'
    rw [hindex] at hindex'
    cases hindex'
    rfl
  · rename_i hnone
    rw [hindex] at hnone
    cases hnone

/-- The pool behind a computation, whether it succeeds or fails. -/
def poolAfter (m : Interner α) (b : PoolBuilder) : PoolBuilder :=
  match m b with
  | .ok _ b' => b'
  | .error _ b' => b'

/-- **A computation only pushes constants**, whether it succeeds or fails. -/
def Extending (m : Interner α) : Prop :=
  ∀ b : PoolBuilder, b.Extends (poolAfter m b)

theorem Extending.of_ok {m : Interner α} (hm : Extending m) {b b' : PoolBuilder} {a : α}
    (h : m b = .ok a b') : b.Extends b' := by
  have hafter := hm b
  unfold poolAfter at hafter
  rwa [h] at hafter

namespace Extending

theorem pure (a : α) : Extending (Pure.pure a : Interner α) :=
  fun b => .refl b

theorem fail (e : EmissionError) : Extending (Interner.fail e : Interner α) :=
  fun b => .refl b

theorem lift (x : Except EmissionError α) : Extending (Interner.lift x) := by
  cases x with
  | error e => exact fail e
  | ok a => exact pure a

theorem bind {m : Interner α} {f : α → Interner β} (hm : Extending m) (hf : ∀ a, Extending (f a)) :
    Extending (m >>= f) := by
  intro b
  have hafter := hm b
  change b.Extends (poolAfter (EStateM.bind m f) b)
  unfold poolAfter EStateM.bind at *
  cases hmb : m b with
  | error e b' =>
    rw [hmb] at hafter
    exact hafter
  | ok a b' =>
    rw [hmb] at hafter
    exact hafter.trans (hf a b')

theorem mapM {f : α → Interner β} (hf : ∀ x, Extending (f x)) (xs : List α) :
    Extending (xs.mapM f) := by
  induction xs with
  | nil => exact pure []
  | cons x xs ih =>
    rw [List.mapM_cons]
    exact (hf x).bind fun _ => ih.bind fun _ => pure _

theorem count16 (what : Counted) (count : Nat) : Extending (Interner.count16 what count) := by
  unfold Interner.count16
  split
  · exact pure _
  · exact fail _

/-! ## Constants -/

theorem constant (c : Constant) : Extending (Interner.constant c) := by
  intro b
  unfold poolAfter Interner.constant
  split
  · rename_i h
    split at h
    · cases h
      exact .refl b
    · dsimp only at h
      split at h
      · cases h
        exact ⟨[c], rfl⟩
      · cases h
  · rename_i h
    split at h
    · cases h
    · dsimp only at h
      split at h
      · cases h
      · cases h
        exact .refl b

theorem utf8 (text : String) : Extending (Interner.utf8 text) :=
  constant _

theorem classRef (name : String) : Extending (Interner.classRef name) :=
  (utf8 name).bind fun _ => constant _

theorem string (text : String) : Extending (Interner.string text) :=
  (utf8 text).bind fun _ => constant _

theorem nameAndType (name descriptor : String) : Extending (Interner.nameAndType name descriptor) :=
  (utf8 name).bind fun _ => (utf8 descriptor).bind fun _ => constant _

theorem fieldRef (owner name descriptor : String) :
    Extending (Interner.fieldRef owner name descriptor) :=
  (classRef owner).bind fun _ => (nameAndType name descriptor).bind fun _ => constant _

theorem methodRef (owner name descriptor : String) (inInterface : Bool) :
    Extending (Interner.methodRef owner name descriptor inInterface) :=
  (classRef owner).bind fun _ => (nameAndType name descriptor).bind fun _ => constant _

end Extending

end Interner

namespace Code

open Interner (Extending)

/-! ## Methods -/

theorem Op.extending_intern {L : Type} (op : Op L) : Extending op.intern := by
  cases op with
  | int value =>
    simp only [intern]
    split
    · exact .pure 0
    · exact .constant _
  | string text => exact .string text
  | classOf name | new name | newArray name | cast name => exact .classRef name
  | getStatic f | putStatic f | getField f | putField f => exact .fieldRef _ _ _
  | invoke kind m => exact .methodRef _ _ _ _
  | _ => exact .pure 0

theorem Layout.extending_ofProgram (method : String) (p : Program) :
    Extending (Layout.ofProgram method p) :=
  (Extending.mapM Op.extending_intern _).bind fun _ => (Extending.lift _).bind fun _ =>
    (Extending.lift _).bind fun _ => .pure _

theorem SlotType.extending_verification (t : SlotType) : Extending t.verification := by
  cases t with
  | object name => exact (Extending.classRef name).bind fun _ => .pure _
  | _ => exact .pure _

namespace VerifierInfo

theorem extending_compact (slots : List SlotType) : Extending (compact slots) :=
  (Extending.mapM SlotType.extending_verification slots).bind fun _ => .pure _

theorem extending_framesFrom (c : Context) (s : Search) (acc : List Frame)
    (before : List VerificationType) (last : Option Nat) (positions : List Nat) :
    Extending (framesFrom c s acc before last positions) := by
  induction positions generalizing acc before last with
  | nil => exact .pure _
  | cons p positions ih =>
    unfold framesFrom
    split
    · exact ih acc before last
    · exact (extending_compact _).bind fun _ =>
        (Extending.mapM SlotType.extending_verification _).bind fun _ => ih _ _ _

theorem extending_ofProgram (shape : MethodHeader) (p : Program) (offsets : Array Nat) :
    Extending (ofProgram shape p offsets) := by
  unfold ofProgram
  refine (Extending.lift _).bind fun entry => ?_
  dsimp only
  split
  · exact (Extending.lift _).bind fun _ => (Extending.lift _).bind fun s =>
      (extending_compact _).bind fun _ => (extending_framesFrom _ _ _ _ _ _).bind fun _ => .pure _
  · exact (Extending.lift _).bind fun s => (extending_compact _).bind fun _ =>
      (extending_framesFrom _ _ _ _ _ _).bind fun _ => .pure _

end VerifierInfo

namespace ClassDraft

/-! ## Classes -/

theorem extending_attributeOf (name : String) (body : Bytes) :
    Extending (attributeOf name body) :=
  (Extending.utf8 name).bind fun _ => .pure _

theorem extending_handlerEntry (offsets : Array Nat) (h : Handler Nat) :
    Extending (handlerEntry offsets h) := by
  unfold handlerEntry
  dsimp only
  split
  · exact (Extending.classRef _).bind fun _ => .pure _
  · exact (Extending.pure _).bind fun _ => .pure _

theorem extending_stackMap (frames : List Frame) : Extending (stackMap frames) := by
  unfold stackMap
  split
  · exact .pure _
  · exact (Extending.count16 _ _).bind fun _ => (extending_attributeOf _ _).bind fun _ => .pure _

theorem extending_codeAttribute (shape : MethodHeader) (body : Body) :
    Extending (codeAttribute shape body) :=
  (Extending.lift _).bind fun _ => (Layout.extending_ofProgram _ _).bind fun _ =>
    (VerifierInfo.extending_ofProgram _ _ _).bind fun _ => (Extending.count16 _ _).bind fun _ =>
      (Extending.mapM (extending_handlerEntry _) _).bind fun _ =>
        (extending_stackMap _).bind fun _ => extending_attributeOf _ _

theorem extending_exceptionsAttribute (exceptions : List String) :
    Extending (exceptionsAttribute exceptions) := by
  unfold exceptionsAttribute
  split
  · exact .pure _
  · exact (Extending.count16 _ _).bind fun _ =>
      (Extending.mapM Extending.classRef _).bind fun _ =>
        (extending_attributeOf _ _).bind fun _ => .pure _

theorem extending_new (access : UInt16) (thisName superName : String) (interfaces : List String) :
    Extending (new access thisName superName interfaces) :=
  (Extending.classRef _).bind fun _ => (Extending.classRef _).bind fun _ =>
    (Extending.mapM Extending.classRef _).bind fun _ => .pure _

theorem extending_addField (d : ClassDraft) (access : UInt16) (name descriptor : String) :
    Extending (d.addField access name descriptor) :=
  (Extending.utf8 _).bind fun _ => (Extending.utf8 _).bind fun _ => .pure _

theorem extending_addMethod (d : ClassDraft) (m : MethodDraft) : Extending (d.addMethod m) := by
  refine (Extending.utf8 _).bind fun _ => (Extending.utf8 _).bind fun _ => ?_
  dsimp only
  split
  · exact (extending_codeAttribute _ _).bind fun _ => (Extending.pure _).bind fun _ =>
      (extending_exceptionsAttribute _).bind fun _ => .pure _
  · exact (Extending.pure _).bind fun _ => (extending_exceptionsAttribute _).bind fun _ => .pure _

theorem extending_setSourceFile (d : ClassDraft) (name : String) :
    Extending (d.setSourceFile name) :=
  (Extending.utf8 _).bind fun _ => .pure _

theorem extending_addAnnotation (d : ClassDraft) (descriptor : String) :
    Extending (d.addAnnotation descriptor) :=
  (Extending.utf8 _).bind fun _ => .pure _

theorem extending_sourceAttribute (d : ClassDraft) : Extending d.sourceAttribute := by
  unfold sourceAttribute
  split
  · exact .pure _
  · exact (extending_attributeOf _ _).bind fun _ => .pure _

theorem extending_annotationsAttribute (d : ClassDraft) : Extending d.annotationsAttribute := by
  unfold annotationsAttribute
  split
  · exact .pure _
  · exact (extending_attributeOf _ _).bind fun _ => .pure _

end ClassDraft

end Code

end ProxyForge
