import ProxyForge.Proofs.Draft.Size
import ProxyForge.Proofs.Inference.Names
import ProxyForge.Proofs.Proxy.Budget
import ProxyForge.Proofs.Room
/-!
# Room for methods

How many new indexes a method takes at most (`MethodDraft.room`), and that its code is not too long
for them: a constant takes six indexes with all its parts, and a frame two for each class that it
names.
-/

namespace ProxyForge

namespace Code

open Interner (Within)
open Outcome

variable {P : String → Prop} {method : String} {p : Program} {m : MethodHeader} {body : Body}
  {l : Layout} {e : TypeState} {n slots : Nat}

/-! ## Layout -/

/-- The bytes that instructions take at most. -/
def Op.span {L : Type} (ops : List (Op L)) : Nat :=
  Op.weightOf ops + 11 * ops.length

theorem Op.size_le_weight {L : Type} (op : Op L) (constant : UInt16) (offset : Nat) :
    op.size constant offset ≤ op.weight + 11 := by
  have hconstant : Op.constantSize constant ≤ 3 := by
    unfold Op.constantSize
    split <;> omega
  have hlocal : ∀ index, Op.localWidth index ≤ 4 := fun index => by
    unfold Op.localWidth
    split
    · omega
    · split <;> omega
  cases op with
  | int value =>
    simp only [Op.size]
    repeat' split
    all_goals omega
  | string _ | classOf _ => exact hconstant.trans (by omega)
  | load _ index => exact Nat.le_add_right _ _
  | store _ index => exact (hlocal index).trans (by omega)
  | invoke kind _ => cases kind <;> exact Nat.le_of_ble_eq_true rfl
  | lookupSwitch _ cases =>
    simp only [Op.size, Op.weight, Op.paddingAt]
    omega
  | _ => exact Nat.le_of_ble_eq_true rfl

namespace Layout

/-- **Instructions that are short enough have offsets.** -/
theorem exists_offsetsFrom {bound : Nat} (hbound : bound ≤ limit) {ops : List (Op Nat × UInt16)}
    {offset : Nat} (acc : Array Nat) (hacc : ∀ i, offsetAt acc i ≤ bound)
    (hroom : offset + Op.span (ops.map Prod.fst) ≤ bound) :
    ∃ offsets, offsetsFrom offset acc ops = .ok offsets ∧ ∀ i, offsetAt offsets i ≤ bound := by
  have hpush : ∀ i, offsetAt (acc.push offset) i ≤ bound := fun i => by
    rw [offsetAt_push]
    split
    · omega
    · exact hacc i
  induction ops generalizing offset acc with
  | nil => exact ⟨_, rfl, hpush⟩
  | cons head ops ih =>
    obtain ⟨op, constant⟩ := head
    have hsize := op.size_le_weight constant offset
    rw [Op.span, List.map_cons, Op.weightOf_cons, List.length_cons] at hroom
    dsimp only at hroom
    have hroom' : offset + op.size constant offset + Op.span (ops.map Prod.fst) ≤ bound := by
      unfold Op.span
      omega
    rw [offsetsFrom, if_neg (by omega)]
    refine ih _ hpush hroom' fun i => ?_
    rw [offsetAt_push]
    split
    · omega
    · exact hpush i

/-- Where offsets are small, every jump can be written. -/
theorem isDefect_of_encode {op : Op Nat} {offsets : Array Nat} {constant : UInt16} {offset : Nat}
    {err : EmissionError} (hoffsets : ∀ i, offsetAt offsets i ≤ 32767) (hoffset : offset ≤ 32767)
    (herr : op.encode method offsets constant offset = .error err) : err.isDefect := by
  have hdefect : ∀ x : Except CodeDefect Bytes,
      x.mapError (EmissionError.invalidCode method) = .error err → err.isDefect := by
    intro x hx
    cases x <;> cases hx
    rfl
  cases op with
  | jump kind target =>
    have htarget := hoffsets target
    rw [Op.encode, Op.encodeJump, Op.distance, if_pos ⟨by omega, by omega⟩] at herr
    cases herr
  | invoke kind target => exact hdefect _ herr
  | lookupSwitch fallback cases => exact hdefect _ herr
  | ret kind => cases kind <;> cases herr
  | _ => cases herr

end Layout

theorem Op.within_intern {L : Type} {op : Op L} (h : ∀ text ∈ op.texts, P text) :
    Within 6 P op.intern := by
  have hfield : ∀ f : FieldRef, (∀ text ∈ [f.owner, f.name, f.descriptor], P text) →
      Within 6 P (Op.internField f) := fun f hf =>
    .fieldRef (hf _ (by simp)) (hf _ (by simp)) (hf _ (by simp))
  have hclass : ∀ name, P name → Within 6 P (Interner.classRef name) := fun name hname =>
    (Within.classRef hname).mono (by omega)
  cases op with
  | int value =>
    rw [Op.intern]
    split
    · exact (Within.pure _).mono (by omega)
    · exact (Within.named (.integer value) rfl fun _ => Constant.noConfusion).mono (by omega)
  | string text => exact (Within.string (h text (by simp [Op.texts]))).mono (by omega)
  | classOf name | new name | newArray name | cast name =>
    exact hclass name (h name (by simp [Op.texts]))
  | getStatic f | putStatic f | getField f | putField f => exact hfield f h
  | invoke kind method =>
    exact .methodRef (h _ (by simp [Op.texts])) (h _ (by simp [Op.texts]))
      (h _ (by simp [Op.texts])) _
  | _ => exact (Within.pure _).mono (by omega)

/-- **Laying out a program that is short** takes six indexes for each instruction at most. -/
theorem Layout.within_ofProgram (hspan : Op.span p.ops.toList ≤ 32767)
    (htexts : ∀ op ∈ p.ops.toList, ∀ text ∈ op.texts, P text) :
    Within (6 * p.ops.toList.length) P (Layout.ofProgram method p) := by
  refine Within.bind_of (k := 0) (Within.mapM fun op hop => Op.within_intern (htexts op hop))
    fun b b' constants hconstants => ?_
  have hlength := length_of_mapM_run hconstants
  have hops : (p.ops.toList.zip constants).map Prod.fst = p.ops.toList :=
    List.map_fst_zip (by omega)
  have hbound : 0 + Op.span ((p.ops.toList.zip constants).map Prod.fst) ≤ 32767 := by
    rw [Nat.zero_add, hops]
    exact hspan
  obtain ⟨offsets, hoffsets, hsmall⟩ := Layout.exists_offsetsFrom
    (Nat.le_of_ble_eq_true rfl : 32767 ≤ Layout.limit) #[] (fun i => by simp [Layout.offsetAt])
    hbound
  have hmeasured : Layout.offsetsOf method (p.ops.toList.zip constants) = .ok offsets :=
    mapError_eq_ok.2 hoffsets
  dsimp only
  rw [hmeasured, Interner.lift_bind]
  refine (Within.lift fun err herr => ?_).bind fun _ => .pure _
  rcases bind_eq_error.1 herr with hpieces | ⟨pieces, -, hresult⟩
  · obtain ⟨⟨⟨op, constant⟩, i⟩, -, hencode⟩ := exists_of_mapM_error hpieces
    exact Layout.isDefect_of_encode hsmall (hsmall i) hencode
  · cases hresult

/-! ## Frames -/

theorem SlotType.within_verification {v : SlotType} (h : ∀ name, v = .object name → P name) :
    Within 2 P v.verification := by
  cases v with
  | object name => exact (Within.classRef (h name rfl)).bind fun _ => .pure _
  | _ => exact (Within.pure _).mono (by omega)

namespace VerifierInfo

theorem length_positions_le (ops : Array (Op Nat)) (guards : List Guard) :
    (positions ops guards).length ≤ ops.size :=
  (List.length_filter_le _ _).trans (Nat.le_of_eq List.length_range)

theorem within_compact {slots : List SlotType} (h : ∀ name, .object name ∈ slots → P name) :
    Within (2 * slots.length) P (compact slots) :=
  (Within.mapM fun _ hv => SlotType.within_verification fun name heq => h name (heq ▸ hv)).bind
    fun _ => .pure _

/-- **Frames** take two indexes for each value that is known. -/
theorem within_framesFrom {c : Context} {s : Search} {k : Nat} {ps : List Nat}
    (hsize : ∀ p ∈ ps, (s.knownAt p).locals.length + (s.knownAt p).stack.length ≤ k)
    (hnames : ∀ p ∈ ps, ∀ name, (s.knownAt p).Holds (.object name) → P name) (acc : List Frame)
    (before : List VerificationType) (last : Option Nat) :
    Within (2 * k * ps.length) P (framesFrom c s acc before last ps) := by
  induction ps generalizing acc before last with
  | nil => exact .pure _
  | cons p ps ih =>
    have hrest := ih (fun q hq => hsize q (List.mem_cons_of_mem p hq))
      (fun q hq => hnames q (List.mem_cons_of_mem p hq))
    rw [List.length_cons, Nat.mul_succ]
    unfold framesFrom
    split
    · exact (hrest _ _ _).mono (Nat.le_add_right _ _)
    · rename_i t ht
      have hone := hsize p List.mem_cons_self
      have hnamed := hnames p List.mem_cons_self
      rw [Search.knownAt_of_stateAt ht] at hone hnamed
      refine ((within_compact fun name hv => hnamed name (.inl hv)).bind fun locals =>
        (Within.mapM fun v hv => SlotType.within_verification fun name heq =>
          hnamed name (.inr (List.mem_reverse.1 (heq ▸ hv)))).bind fun stack =>
            hrest _ _ _).mono ?_
      rw [List.length_reverse]
      have htwice := Nat.mul_le_mul_left 2 hone
      omega

end VerifierInfo

/-- **The classes that inference knows** in a body have names with `P`. -/
def KnownNames (P : String → Prop) (m : MethodHeader) (body : Body) : Prop :=
  ∀ p l e s, LaidOut m body p l → TypeState.entry m = .ok e →
    Search.infer (p.context m l.offsets) e = .ok s →
      (∀ name, e.Holds (.object name) → P name) ∧
        ∀ i < p.ops.size, ∀ name, (s.knownAt i).Holds (.object name) → P name

/-- **The frames of a body** take as many indexes as its instructions and slots demand. -/
theorem VerifierInfo.within_ofProgram (hl : LaidOut m body p l)
    (hslots : ∀ e, TypeState.entry m = .ok e → e.locals.length ≤ slots)
    (hreach : ∀ op ∈ body.ops, op.reach ≤ slots) (hnames : KnownNames P m body) :
    Within (2 * slots + 2 * (slots + p.ops.size) * min p.ops.size body.labels.length) P
      (VerifierInfo.ofProgram m p l.offsets) := by
  refine .of_le fun hle => ?_
  rcases VerifierInfo.ofProgram_cases m p l.offsets with ⟨d, hd⟩ | ⟨e, s, he, hsize, hs, heq⟩
  · rw [hd]
    exact .fail rfl
  · obtain ⟨hentry, hknown⟩ := hnames p l e s hl he hs
    have hlocals := hslots e he
    have hfew : slots ≤ 65535 := by
      unfold PoolBuilder.limit at hle
      omega
    have hinferred := hl.inferred he (hl.reachesBelow hreach) hsize hs hlocals (by omega)
    have hmem : ∀ i ∈ positions p.ops (Guard.ofHandlers p.handlers), i < p.ops.size :=
      fun i hi => (VerifierInfo.mem_positions.1 hi).1
    have hframes := fun before => within_framesFrom (c := p.context m l.offsets)
      (k := slots + p.ops.size) (fun i hi => Nat.add_le_add (hinferred.admits (hmem i hi)).locals
        (hinferred.height_lt (hmem i hi)).le) (fun i hi => hknown i (hmem i hi)) [] before none
    rw [heq]
    refine ((within_compact fun name hv => hentry name (.inl hv)).bind fun before =>
      (hframes before).bind fun _ => .pure _).mono ?_
    have := Nat.mul_le_mul_left (2 * (slots + p.ops.size))
      (le_min (length_positions_le p.ops (Guard.ofHandlers p.handlers))
        (hl.length_positions_le fun i hi => hinferred.reachable hi))
    omega

/-- There are no more frames than instructions. -/
theorem LaidOut.length_frames_le {info : VerifierInfo} {b b' : PoolBuilder}
    (hl : LaidOut m body p l) (h : VerifierInfo.ofProgram m p l.offsets b = .ok info b') :
    info.frames.length ≤ p.ops.size := by
  obtain ⟨e, s, hframed⟩ := framed_of_ofProgram hl h
  have hoffsets := congrArg List.length hframed.offsets
  rw [List.length_map, List.length_map, Frame.offsets, Framed.length_offsetsAfter] at hoffsets
  rw [hoffsets]
  exact VerifierInfo.length_positions_le _ _

/-! ## Methods -/

theorem Op.texts_resolve {L M ε : Type} {place : L → Except ε M} {op : Op L} {op' : Op M}
    (h : op.resolve place = .ok op') : op'.texts = op.texts :=
  Op.resolve_agrees (f := Op.texts) (fun op => by cases op <;> rfl) h

/-- The texts that a body names. -/
def Body.texts (body : Body) : List String :=
  body.ops.flatMap Op.texts ++ body.handlers.filterMap (·.caught)

namespace Body

/-- An instruction names what it named before its labels were resolved. -/
theorem mem_texts_of_op (hresolve : body.resolve = .ok p) {op : Op Nat} (hop : op ∈ p.ops.toList)
    {text : String} (htext : text ∈ op.texts) : text ∈ body.texts := by
  obtain ⟨i, hi⟩ := Array.mem_iff_getElem?.1 (Array.mem_toList_iff.1 hop)
  obtain ⟨op', hop', hresolved⟩ := (resolve_ops hresolve).2 i op hi
  rw [Op.texts_resolve hresolved] at htext
  exact List.mem_append_left _
    (List.mem_flatMap.2 ⟨op', List.mem_of_getElem? hop', htext⟩)

/-- A handler catches what it caught before its labels were resolved. -/
theorem mem_texts_of_handler (hresolve : body.resolve = .ok p) {h : Handler Nat}
    (hh : h ∈ p.handlers) {name : String} (hname : h.caught = some name) :
    name ∈ body.texts := by
  obtain ⟨k, hk⟩ := List.mem_iff_getElem?.1 hh
  obtain ⟨h', hh', hresolved⟩ := getElem?_of_forall₂ (resolve_handlers hresolve) hk
  rw [(resolveHandler_ok hresolved).2.2.2] at hname
  exact List.mem_append_right _ (List.mem_filterMap.2 ⟨h', List.mem_of_getElem? hh', hname⟩)

end Body

/-- All names are texts. -/
theorem KnownNames.any : KnownNames (fun _ => True) m body :=
  fun _ _ _ _ _ _ _ => ⟨fun _ _ => trivial, fun _ _ _ _ => trivial⟩

/-- **In a body with short names all classes that are known have short names.** -/
theorem KnownNames.of_short (hn : throwableClass.length ≤ n) (hthis : m.thisClass.length ≤ n)
    (hdescriptor : m.descriptor.length ≤ n)
    (htexts : ∀ text ∈ body.texts, text.length + 3 ≤ n) :
    KnownNames (fun text => text.length ≤ n) m body := by
  intro p l e s hl he hs
  have hentry : e.Short n := TypeState.short_entry hthis hdescriptor he
  have hshort : Context.Short n (p.context m l.offsets) e := by
    refine ⟨hn, hthis, fun i op hop text htext => ?_, fun g hg => ?_, hentry⟩
    · exact htexts text (Body.mem_texts_of_op hl.resolve
        (Array.mem_toList_iff.2 (Array.mem_of_getElem? hop)) htext)
    · obtain ⟨name, hcaught, hname⟩ := Guard.caught_of_mem hg
      rw [hcaught]
      rcases hname with rfl | ⟨h, hh, hname⟩
      · exact hn
      · exact Nat.le_of_add_right_le
          (htexts name (Body.mem_texts_of_handler hl.resolve hh hname))
  refine ⟨fun name hholds => hentry _ hholds, fun i hi name hholds => ?_⟩
  exact hl.short_knownAt he (Nat.zero_lt_of_lt hi) hs hshort hi _ hholds

/-- The indexes that a body takes at most, with so many slots for local variables: it has no more
frames than instructions, and no more than labels. -/
def Body.room (slots : Nat) (body : Body) : Nat :=
  6 * body.ops.length + (2 * slots +
    2 * (slots + body.ops.length) * min body.ops.length body.labels.length) +
      3 * body.handlers.length + body.ops.length + 2

/-- The names of attributes. -/
def Attribute.names : List String :=
  [Attribute.codeName, Attribute.stackMapName, Attribute.exceptionsName, Attribute.sourceFileName,
    Attribute.annotationsName]

namespace ClassDraft

theorem within_attributeOf {name : String} (h : P name) (bytes : Bytes) :
    Within 1 P (attributeOf name bytes) :=
  (Within.utf8 h).bind fun _ => .pure _

theorem within_handlerEntry (offsets : Array Nat) {h : Handler Nat}
    (hcaught : ∀ name, h.caught = some name → P name) : Within 2 P (handlerEntry offsets h) := by
  unfold handlerEntry
  dsimp only
  split
  · rename_i name hname
    exact (Within.classRef (hcaught name hname)).bind fun _ => .pure _
  · exact ((Within.pure _).bind fun _ => .pure _).mono (by omega)

theorem within_stackMap {frames : List Frame} (h : P Attribute.stackMapName) :
    Within (frames.length + 1) P (stackMap frames) := by
  unfold stackMap
  split
  · exact (Within.pure _).mono (by omega)
  · exact (Within.count16 _ _).bind fun _ => (within_attributeOf h _).bind fun _ => .pure _

theorem within_exceptionsAttribute {exceptions : List String} (h : P Attribute.exceptionsName)
    (hnames : ∀ name ∈ exceptions, P name) :
    Within (3 * exceptions.length + 1) P (exceptionsAttribute exceptions) := by
  unfold exceptionsAttribute
  split
  · exact (Within.pure _).mono (by omega)
  · exact ((Within.count16 _ _).bind fun _ =>
      (Within.mapM fun name hname => Within.classRef (hnames name hname)).bind fun _ =>
        (within_attributeOf h _).bind fun _ => .pure _).mono (by omega)

/-- **The code of a body** takes the indexes that there is room for. -/
theorem within_codeAttribute (hattributes : ∀ name ∈ Attribute.names, P name)
    (hspan : Op.span body.ops ≤ 32767)
    (hslots : ∀ e, TypeState.entry m = .ok e → e.locals.length ≤ slots)
    (hreach : ∀ op ∈ body.ops, op.reach ≤ slots) (htexts : ∀ text ∈ body.texts, P text)
    (hknown : KnownNames P m body) : Within (body.room slots) P (codeAttribute m body) := by
  have hlift : Within 0 P (Interner.lift (body.program m.name)) := by
    refine .lift fun err herr => ?_
    unfold Body.program at herr
    cases hresolve : body.resolve <;> rw [hresolve] at herr <;> cases herr
    rfl
  refine (hlift.bind_of fun b b' p hp => ?_).mono (Nat.le_of_eq (Nat.zero_add _))
  obtain ⟨hprogram, -⟩ := Interner.lift_ok hp
  have hresolve : body.resolve = .ok p := mapError_eq_ok.1 hprogram
  obtain ⟨hsize, hops⟩ := Body.resolve_ops hresolve
  have hlength : p.ops.toList.length = body.ops.length := by rw [Array.length_toList, hsize]
  have hnames : ∀ op ∈ p.ops.toList, ∀ text ∈ op.texts, P text := fun op hop text htext =>
    htexts text (Body.mem_texts_of_op hresolve hop htext)
  have hhandlers := Body.resolve_handlers hresolve
  have hcaught : ∀ h ∈ p.handlers, ∀ name, h.caught = some name → P name := fun h hh name hname =>
    htexts name (Body.mem_texts_of_handler hresolve hh hname)
  have hshort : Op.span p.ops.toList ≤ 32767 := by
    unfold Op.span
    rw [Body.weightOf_resolve hresolve, hlength]
    exact hspan
  have hroom : body.room slots = 6 * p.ops.toList.length +
      ((2 * slots + 2 * (slots + p.ops.size) * min p.ops.size body.labels.length) +
        (3 * body.handlers.length + body.ops.length + 2)) := by
    rw [Body.room, hlength, hsize]
    omega
  rw [hroom]
  refine (Layout.within_ofProgram hshort hnames).bind_of fun b b' l hlayout => ?_
  have hl : LaidOut m body p l := ⟨hprogram, b, b', hlayout⟩
  refine (VerifierInfo.within_ofProgram hl hslots hreach hknown).bind_of
    fun b b' info hinfo => ?_
  have hframes := hl.length_frames_le hinfo
  refine ((Within.count16 _ _).bind fun _ =>
    (Within.mapM fun h hh => within_handlerEntry l.offsets (hcaught h hh)).bind fun _ =>
      (within_stackMap (hattributes _ (by simp [Attribute.names]))).bind fun _ =>
        within_attributeOf (hattributes _ (by simp [Attribute.names])) _).mono ?_
  have hcount := hhandlers.length_eq
  omega

end ClassDraft

/-! ## Classes -/

/-- The slots of a body: those at its start, and those that its instructions name. -/
def Body.slotCount (m : MethodHeader) (body : Body) : Nat :=
  (body.ops.map Op.reach).foldr max
    (match TypeState.entry m with
    | .ok e => e.locals.length
    | .error _ => 0)

theorem Body.reach_le_slotCount (m : MethodHeader) {op : Op Label} (hop : op ∈ body.ops) :
    op.reach ≤ body.slotCount m := by
  unfold slotCount
  generalize body.ops = ops at hop
  induction ops with
  | nil => cases hop
  | cons head ops ih =>
    rw [List.map_cons, List.foldr_cons]
    rcases List.mem_cons.1 hop with rfl | hop
    · exact le_max_left _ _
    · exact (ih hop).trans (le_max_right _ _)

theorem Body.locals_le_slotCount (he : TypeState.entry m = .ok e) (body : Body) :
    e.locals.length ≤ body.slotCount m := by
  unfold slotCount
  rw [he]
  generalize body.ops = ops
  induction ops with
  | nil => exact Nat.le_refl _
  | cons head ops ih => exact ih.trans (le_max_right _ _)

namespace MethodDraft

/-- The texts that a method names. -/
def texts (m : MethodDraft) : List String :=
  [m.name, m.descriptor] ++ m.exceptions ++ m.body.toList.flatMap Body.texts

/-- The indexes that a method takes at most. -/
def room (thisName : String) (m : MethodDraft) : Nat :=
  2 + ((m.body.toList.map fun body => body.room (body.slotCount (m.shape thisName))).sum +
    (3 * m.exceptions.length + 1))

/-- **A method for which room can be told**: its code is not too long, and all the names in it are
texts with `P`. -/
structure Modest (P : String → Prop) (thisName : String) (m : MethodDraft) : Prop where
  texts : ∀ text ∈ m.texts, P text
  span : ∀ body, m.body = some body → Op.span body.ops ≤ 32767
  known : ∀ body, m.body = some body → KnownNames P (m.shape thisName) body

end MethodDraft

namespace ClassDraft

variable {d d' : ClassDraft} {draft : MethodDraft} {thisName superName : String}
  {interfaces : List String}

/-- **A method** takes the indexes that there is room for. -/
theorem within_addMethod (hattributes : ∀ name ∈ Attribute.names, P name)
    (h : draft.Modest P d.thisName) : Within (draft.room d.thisName) P (d.addMethod draft) := by
  unfold MethodDraft.room
  have hbody : ∀ body, draft.body = some body → ∀ text ∈ body.texts, P text :=
    fun body hbody text htext => h.texts text (by simp [MethodDraft.texts, hbody, htext])
  have hthrown : Within (3 * draft.exceptions.length + 1) P
      (exceptionsAttribute draft.exceptions) :=
    within_exceptionsAttribute (hattributes _ (by simp [Attribute.names]))
      fun name hname => h.texts name (by simp [MethodDraft.texts, hname])
  have hrest := fun name descriptor code => hthrown.bind fun thrown => Within.pure (P := P)
    { d with methods := ⟨draft.access, name, descriptor, code ++ thrown⟩ :: d.methods }
  rw [show 2 = 1 + 1 from rfl, Nat.add_assoc]
  refine (Within.utf8 (h.texts _ (by simp [MethodDraft.texts]))).bind fun name =>
    (Within.utf8 (h.texts _ (by simp [MethodDraft.texts]))).bind fun descriptor => ?_
  dsimp only
  cases hsome : draft.body with
  | none => exact (Within.pure _).bind fun code => hrest name descriptor code
  | some body =>
    exact ((within_codeAttribute hattributes (h.span body hsome)
      (fun e he => Body.locals_le_slotCount he body) (fun op hop => Body.reach_le_slotCount _ hop)
      (hbody body hsome) (h.known body hsome)).bind fun _ => (Within.pure _).bind fun code =>
        hrest name descriptor code).mono (by simp)

theorem within_addField {name descriptor : String} (hname : P name) (hdescriptor : P descriptor)
    (access : UInt16) : Within 2 P (d.addField access name descriptor) :=
  (Within.utf8 hname).bind fun _ => (Within.utf8 hdescriptor).bind fun _ => .pure _

theorem within_new (hthis : P thisName) (hsuper : P superName)
    (hinterfaces : ∀ name ∈ interfaces, P name) (access : UInt16) :
    Within (4 + 2 * interfaces.length) P (new access thisName superName interfaces) :=
  ((Within.classRef hthis).bind fun _ => (Within.classRef hsuper).bind fun _ =>
    (Within.mapM fun name hname => Within.classRef (hinterfaces name hname)).bind fun _ =>
      .pure _).mono (by omega)

theorem within_setSourceFile {name : String} (hname : P name) : Within 1 P (d.setSourceFile name) :=
  (Within.utf8 hname).bind fun _ => .pure _

theorem within_addAnnotation {descriptor : String} (hdescriptor : P descriptor) :
    Within 1 P (d.addAnnotation descriptor) :=
  (Within.utf8 hdescriptor).bind fun _ => .pure _

/-- The interfaces, the fields and the methods of a draft. -/
def count (d : ClassDraft) : Nat :=
  d.interfaces.length + d.fields.length + d.methods.length

theorem within_finish (hattributes : ∀ name ∈ Attribute.names, P name) :
    Within (2 + d.count) P d.finish := by
  have hsource : Within 1 P d.sourceAttribute := by
    unfold sourceAttribute
    split
    · exact (Within.pure _).mono (by omega)
    · exact (within_attributeOf (hattributes _ (by simp [Attribute.names])) _).bind fun _ => .pure _
  have hannotations : Within 1 P d.annotationsAttribute := by
    unfold annotationsAttribute
    split
    · exact (Within.pure _).mono (by omega)
    · exact (within_attributeOf (hattributes _ (by simp [Attribute.names])) _).bind fun _ => .pure _
  exact (hsource.bind fun _ => hannotations.bind fun _ => (Within.count16 _ _).bind fun _ =>
    (Within.count16 _ _).bind fun _ => (Within.count16 _ _).bind fun _ =>
      Within.get.bind fun _ => .pure _).mono (by unfold count; omega)

/-- What a class has at its start. -/
theorem count_new {access : UInt16} (h : new access thisName superName interfaces b = .ok d b') :
    d.thisName = thisName ∧ d.count = interfaces.length := by
  obtain ⟨_, b₁, -, h₁⟩ := bind_run_ok.1 h
  obtain ⟨_, b₂, -, h₂⟩ := bind_run_ok.1 h₁
  obtain ⟨is, b₃, his, hresult⟩ := bind_run_ok.1 h₂
  cases hresult
  exact ⟨rfl, length_of_mapM_run his⟩

/-- One field more. -/
theorem count_addField {access : UInt16} {name descriptor : String}
    (h : d.addField access name descriptor b = .ok d' b') :
    d'.thisName = d.thisName ∧ d'.count = d.count + 1 := by
  obtain ⟨member, rfl, -⟩ := addField_ok h
  refine ⟨rfl, ?_⟩
  simp only [count, List.length_cons]
  omega

/-- One method more. -/
theorem count_addMethod (h : d.addMethod draft b = .ok d' b') :
    d'.thisName = d.thisName ∧ d'.count = d.count + 1 := by
  obtain ⟨member, rfl, -⟩ := addMethod_ok h
  exact ⟨rfl, rfl⟩

theorem count_setSourceFile {name : String} (h : d.setSourceFile name b = .ok d' b') :
    d'.count = d.count := by
  obtain ⟨i, b₁, -, hresult⟩ := bind_run_ok.1 h
  cases hresult
  rfl

theorem count_addAnnotation {descriptor : String} (h : d.addAnnotation descriptor b = .ok d' b') :
    d'.count = d.count := by
  obtain ⟨i, b₁, -, hresult⟩ := bind_run_ok.1 h
  cases hresult
  rfl

/-- As many fields or methods more as were added. -/
theorem count_foldlM {α : Type} {f : ClassDraft → α → Interner ClassDraft}
    (hf : ∀ x d d' b b', f d x b = .ok d' b' → d'.thisName = d.thisName ∧ d'.count = d.count + 1)
    {xs : List α} (h : xs.foldlM f d b = .ok d' b') :
    d'.thisName = d.thisName ∧ d'.count = d.count + xs.length := by
  induction xs generalizing d b with
  | nil =>
    cases h
    exact ⟨rfl, rfl⟩
  | cons x xs ih =>
    rw [List.foldlM_cons] at h
    obtain ⟨d₁, b₁, hx, hrest⟩ := bind_run_ok.1 h
    obtain ⟨hname, hcount⟩ := hf x d d₁ b b₁ hx
    obtain ⟨hname', hcount'⟩ := ih hrest
    refine ⟨hname'.trans hname, ?_⟩
    rw [List.length_cons]
    omega

end ClassDraft

end Code

end ProxyForge
