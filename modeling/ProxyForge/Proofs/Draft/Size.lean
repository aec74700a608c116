import ProxyForge.Proofs.Descriptor
import ProxyForge.Proofs.Draft.Session
import ProxyForge.Proofs.Layout.Blocks
/-!
# The sizes of code attributes

The bytes of an attribute are counted in four bytes, and nothing checks that this is enough. It is:
a frame takes three bytes at most for each value that is known, and there are at most as many frames
as labels. So the code of a body with few labels fits (`ClassDraft.fits_of_codeAttribute`), unless
its method has more parameters than a descriptor can name.
-/

namespace ProxyForge

open Outcome

/-! ## Frames -/

theorem VerificationType.length_encode_le (t : VerificationType) : t.encode.length ≤ 3 := by
  cases t <;> simp [encode, Bytes.be16]

namespace Frame

theorem length_encodeTypes_le (types : List VerificationType) :
    (encodeTypes types).length ≤ 3 * types.length :=
  length_flatMap_le VerificationType.length_encode_le types

/-- **A compressed frame** takes three bytes at most for each type, and seven more. -/
theorem length_encode_compress_le (before locals stack : List VerificationType) (delta : UInt16) :
    (compress before locals stack delta).encode.length ≤
      7 + 3 * (locals.length + stack.length) := by
  have htag : ∀ small large : Bytes, small.length = 1 → large.length = 3 →
      (if delta ≤ 63 then small else large).length ≤ 3 := by
    intro small large hsmall hlarge
    split <;> omega
  have hlocals := length_encodeTypes_le locals
  have hstack := length_encodeTypes_le stack
  have hdropped := length_encodeTypes_le (locals.drop before.length)
  rw [List.length_drop] at hdropped
  unfold compress
  split
  · exact (htag _ _ rfl rfl).trans (by omega)
  · rename_i item _
    have hitem := item.length_encode_le
    have hfront := htag [64 + delta.toUInt8] (247 :: Bytes.be16 delta) rfl rfl
    rw [encode, List.length_append]
    simp only [List.length_cons, List.length_nil]
    omega
  · split
    · change 3 ≤ _
      omega
    · split
      · rw [encode, List.length_append]
        change 3 + _ ≤ _
        omega
      · rw [encode]
        simp only [List.length_append, List.length_cons]
        change 2 + 1 + 2 + _ + 2 + _ ≤ _
        omega

end Frame

/-! ## Texts -/

/-- A text of a pool whose texts fit. -/
theorem Pool.TextsFit.utf8 {pool : Pool} {i : UInt16} {text : String} (h : pool.TextsFit)
    (hi : pool.utf8 i = .ok text) : (ModifiedUtf8.encode text).length ≤ 65535 := by
  obtain ⟨c, hget, hresult⟩ := bind_eq_ok.1 hi
  split at hresult
  · cases hresult
    exact h text (Array.mem_of_getElem? (Pool.get_eq_ok.1 hget))
  · cases hresult

/-- A method descriptor names fewer parameters than it has characters. -/
theorem JvmType.length_lt_of_ofMethodDescriptor {text : String} {params : List JvmType}
    {result : JvmType} (h : ofMethodDescriptor text = .ok (params, result)) :
    params.length < text.toList.length := by
  have hparams : params.length ≤ (params.flatMap descriptorChars).length :=
    length_le_flatMap (fun t => by
      obtain ⟨c, cs, hcs, -⟩ := exists_descriptorChars t
      rw [hcs]
      exact Nat.succ_pos cs.length) params
  rw [← length_ofMethodDescriptor h, methodDescriptorChars, List.length_append, List.length_cons]
  omega

namespace Code

open SlotType (verification)
open VerifierInfo (positions framesFrom compact)

variable {m : MethodHeader} {body : Body} {p : Program} {l : Layout} {b b' : PoolBuilder}
  {info : VerifierInfo} {bs : List Block}

namespace VerifierInfo

/-- **The frames of a search** take three bytes at most for each value that it knows. -/
theorem length_encode_of_framesFrom {c : Context} {s : Search} {n : Nat} {acc : List Frame}
    {before : List VerificationType} {last : Option Nat} {ps : List Nat} {frames : List Frame}
    (hknown : ∀ p ∈ ps, (s.knownAt p).locals.length + (s.knownAt p).stack.length ≤ n)
    (hacc : ∀ f ∈ acc, f.encode.length ≤ 7 + 3 * n)
    (h : framesFrom c s acc before last ps b = .ok frames b') :
    ∀ f ∈ frames, f.encode.length ≤ 7 + 3 * n := by
  induction ps generalizing acc before last b with
  | nil =>
    cases h
    exact fun f hf => hacc f (List.mem_reverse.1 hf)
  | cons p ps ih =>
    have hrest := fun q hq => hknown q (List.mem_cons_of_mem p hq)
    unfold framesFrom at h
    cases ht : s.stateAt p with
    | none =>
      rw [ht] at h
      exact ih hrest hacc h
    | some t =>
      rw [ht] at h
      obtain ⟨localTypes, b₁, hlocals, h₁⟩ := bind_run_ok.1 h
      obtain ⟨stackTypes, b₂, hstack, h₂⟩ := bind_run_ok.1 h₁
      refine ih hrest (fun f hf => ?_) h₂
      rcases List.mem_cons.1 hf with rfl | hf
      · have hsize := Frame.length_encode_compress_le before localTypes stackTypes
          (deltaTo (c.offsetAt p) last)
        have ht' := hknown p List.mem_cons_self
        rw [Search.knownAt_of_stateAt ht] at ht'
        obtain ⟨written, b₃, hwritten, hresult⟩ := bind_run_ok.1 hlocals
        cases hresult
        have hcompact := VerificationType.length_compactLocals_le written
        have hlocalsLength := length_of_mapM_run hwritten
        have hstackLength := length_of_mapM_run hstack
        rw [List.length_reverse] at hstackLength
        omega
      · exact hacc f hf

end VerifierInfo

/-! ## How many frames there are -/

/-- **An instruction that needs a frame** is a target of a jump or a handler, if control may come
to it: it does not come to it from an instruction that never passes it on. -/
theorem Program.NeedsFrame.target_or_handler {offsets : Array Nat} {i : Nat}
    (h : p.NeedsFrame i) (hreach : (p.context m offsets).Reachable i) :
    (∃ (k : Nat) (op : Op Nat), p.ops[k]? = some op ∧ i ∈ op.targets) ∨
      ∃ r ∈ p.handlers, i = r.handler := by
  rcases h with ⟨k, op, hop, htarget | ⟨hu, rfl⟩⟩ | hhandler
  · exact .inl ⟨k, op, hop, htarget⟩
  · rcases Relation.ReflTransGen.cases_tail hreach with hzero | ⟨j, -, _, _, _, harrives⟩
    · cases hzero
    · have hguard : ∀ g ∈ (p.context m offsets).guards, ∃ r ∈ p.handlers,
          g.handler = r.handler := by
        intro g hg
        obtain ⟨r, hr, heq, -⟩ := Guard.catches_of_mem hg
        exact ⟨r, hr, heq⟩
      generalize hi : k + 1 = i at harrives
      cases harrives with
      | jump hop' hj => exact .inl ⟨j, _, hop', hj⟩
      | next hop' hu' =>
        cases hi
        cases hop.symm.trans hop'
        rw [hu'] at hu
        cases hu
      | raisedBefore hg _ => exact .inr (hguard _ hg)
      | raisedAfter hg _ => exact .inr (hguard _ hg)
  · exact .inr hhandler

/-- The label that a line binds. -/
def Line.label : Line → Option Label
  | op _ => none
  | mark label => some label

/-- The labels that the lines of a body bind. -/
def Body.labels (body : Body) : List Label :=
  body.lines.filterMap Line.label

theorem Line.filterMap_label_straight (ops : List (Op Label)) :
    (straight ops).filterMap label = [] := by
  induction ops with
  | nil => rfl
  | cons op ops ih => exact ih

/-- The labels of blocks are those that their lines bind. -/
theorem Block.labels_eq (hlines : body.lines = linesOf bs) : body.labels = labelsOf bs := by
  rw [Body.labels, hlines]
  clear hlines
  induction bs with
  | nil => rfl
  | cons b bs ih =>
    rw [linesOf, List.flatMap_cons, List.filterMap_append, ← linesOf, ih]
    have hblock : b.lines.filterMap Line.label = b.label.toList := by
      unfold lines
      cases b.label with
      | none => exact Line.filterMap_label_straight b.ops
      | some label => exact congrArg (label :: ·) (Line.filterMap_label_straight b.ops)
    unfold labelsOf
    rw [hblock, List.filterMap_cons]
    cases b.label <;> rfl

theorem Body.mem_of_positionsFrom {label i position : Nat} {bound : Std.HashMap Label Nat}
    {lines : List Line} (h : (positionsFrom position bound lines)[label]? = some i) :
    bound[label]? = some i ∨ label ∈ lines.filterMap Line.label := by
  induction lines generalizing position bound with
  | nil => exact .inl h
  | cons line lines ih =>
    cases line with
    | op op => exact ih h
    | mark label' =>
      rcases ih h with hfront | hmem
      · by_cases heq : label' = label
        · exact .inr (heq ▸ List.mem_cons_self)
        · rw [Std.HashMap.getElem?_insert, beq_false_of_ne heq] at hfront
          exact .inl hfront
      · exact .inr (List.mem_cons_of_mem label' hmem)

/-- Only labels that are bound have positions. -/
theorem Body.mem_labels {label i : Nat} (h : body.positions[label]? = some i) :
    label ∈ body.labels := by
  rcases mem_of_positionsFrom h with hempty | hmem
  · simp at hempty
  · exact hmem

/-- **There are at most as many frames as labels.** -/
theorem LaidOut.length_positions_le (hl : LaidOut m body p l)
    (hreach : ∀ i < p.ops.size, (p.context m l.offsets).Reachable i) :
    (positions p.ops (Guard.ofHandlers p.handlers)).length ≤ body.labels.length := by
  refine (List.Subperm.length_le (List.subperm_of_subset
    ((VerifierInfo.positions_pairwise _ _).imp Nat.ne_of_lt) fun i hi => ?_)).trans
    (List.length_filterMap_le (fun label => body.positions[label]?) _)
  obtain ⟨hlt, hneeds⟩ := VerifierInfo.mem_positions.1 hi
  rw [List.mem_filterMap]
  rcases hneeds.target_or_handler (hreach i hlt) with ⟨k, op, hop, htarget⟩ | ⟨r, hr, rfl⟩
  · obtain ⟨op₀, -, hresolve⟩ := (Body.resolve_ops hl.resolve).2 k op hop
    obtain ⟨n, hn⟩ := List.mem_iff_getElem?.1 htarget
    obtain ⟨label, -, hplace⟩ := getElem?_of_forall₂ (Op.resolve_targets hresolve) hn
    have hlabel := (Body.jumpTarget_ok hplace).1
    exact ⟨label, Body.mem_labels hlabel, hlabel⟩
  · obtain ⟨n, hn⟩ := List.mem_iff_getElem?.1 hr
    obtain ⟨h, -, hresolve⟩ := getElem?_of_forall₂ (Body.resolve_handlers hl.resolve) hn
    have hlabel := (Body.resolveHandler_ok hresolve).2.2.1
    exact ⟨h.handler, Body.mem_labels hlabel, hlabel⟩

/-! ## Code -/

/-- The slots that parameters take at most, and an instance, if a constant has their descriptor. -/
def slotLimit : Nat := 131071

theorem length_parameterSlots_le (t : JvmType) : (TypeState.parameterSlots t).length ≤ 2 := by
  unfold TypeState.parameterSlots SlotType.expand
  split
  · split <;> simp
  · simp

/-- **The parameters of a method** take few slots if its descriptor fits into a constant. -/
theorem length_locals_entry_le {e : TypeState} (he : TypeState.entry m = .ok e)
    (hfits : (ModifiedUtf8.encode m.descriptor).length ≤ 65535) :
    e.locals.length ≤ slotLimit := by
  have hchars := ModifiedUtf8.length_le_encode m.descriptor
  unfold TypeState.entry at he
  split at he
  · cases he
  · rename_i params result hparse
    cases he
    have hparams := JvmType.length_lt_of_ofMethodDescriptor hparse
    have hreceiver : (TypeState.receiver m).length ≤ 1 := by
      unfold TypeState.receiver
      split
      · exact Nat.zero_le 1
      · split <;> exact Nat.le_refl 1
    have hslots : (params.flatMap TypeState.parameterSlots).length ≤ 2 * params.length :=
      length_flatMap_le length_parameterSlots_le params
    rw [List.length_append]
    unfold slotLimit
    omega

/-- **The frames of a method** are few if its labels are, and small if its parameters are. -/
theorem LaidOut.length_encodeTable_le (hl : LaidOut m body p l)
    (hinfo : VerifierInfo.ofProgram m p l.offsets b = .ok info b')
    (hlines : body.lines = Block.linesOf bs)
    (hlocals : ∀ e, TypeState.entry m = .ok e → e.locals.length ≤ slotLimit) :
    (Frame.encodeTable info.frames).length ≤ 2 + (Block.labelsOf bs).length * 589825 := by
  obtain ⟨_, _, hframed⟩ := framed_of_ofProgram hl hinfo
  obtain ⟨e, s, he, hsize, hs, hframes⟩ := VerifierInfo.ofProgram_ok hinfo
  obtain ⟨before, b₁, -, h₁⟩ := bind_run_ok.1 hframes
  obtain ⟨frames, b₂, hfrom, hresult⟩ := bind_run_ok.1 h₁
  cases hresult
  have hinferred := hl.inferred_max he hsize hs
  have hentry := hlocals e he
  have hknown : ∀ i ∈ positions p.ops (Guard.ofHandlers p.handlers),
      (s.knownAt i).locals.length + (s.knownAt i).stack.length ≤ slotLimit + 65535 := by
    intro i hi
    have hlt := (VerifierInfo.mem_positions.1 hi).1
    have hlocals := (hinferred.admits hlt).locals
    have hheight := hinferred.height_lt hlt
    have hops := hl.size_le
    change _ < p.ops.size at hheight
    unfold slotLimit at hentry ⊢
    omega
  have hone := VerifierInfo.length_encode_of_framesFrom hknown
    (fun _ hf => absurd hf List.not_mem_nil) hfrom
  have hcount : frames.length ≤ (Block.labelsOf bs).length := by
    have hoffsets := congrArg List.length hframed.offsets
    rw [List.length_map, List.length_map, Frame.offsets, Framed.length_offsetsAfter] at hoffsets
    rw [hoffsets, ← Block.labels_eq hlines]
    exact hl.length_positions_le fun i hi => hinferred.reachable hi
  rw [Frame.encodeTable, List.length_append, List.length_flatMap]
  refine Nat.add_le_add_left ?_ 2
  refine (List.sum_le_card_nsmul _ 589825 fun n hn => ?_).trans ?_
  · obtain ⟨f, hf, rfl⟩ := List.mem_map.1 hn
    exact hone f hf
  · rw [List.length_map]
    exact Nat.mul_le_mul_right _ hcount

/-- **A body with few labels**, if it can be laid out at all. -/
def Body.FewLabels (m : MethodHeader) (body : Body) : Prop :=
  ∃ bs, body.lines = Block.linesOf bs ∧
    ∀ p l, LaidOut m body p l → (Block.labelsOf bs).length ≤ 7000

/-- **The code of a method with few labels fits** into an attribute. -/
theorem ClassDraft.fits_of_codeAttribute {a : Attribute}
    (h : ClassDraft.codeAttribute m body b = .ok a b') (hfew : body.FewLabels m)
    (hlocals : ∀ e, TypeState.entry m = .ok e → e.locals.length ≤ slotLimit) : a.Fits := by
  obtain ⟨p, l, b₁, info, b₂, handlers, b₃, attributes, b₄, hprogram, hlayout, hinfo, hcount,
    hhandlers, hattributes, ha⟩ := codeAttribute_parts h
  have hl : LaidOut m body p l := ⟨hprogram, _, _, hlayout⟩
  obtain ⟨bs, hlines, hlabels⟩ := hfew
  have hlabels := hlabels p l hl
  have htable := hl.length_encodeTable_le hinfo hlines hlocals
  have hcode := Layout.length_code_le hlayout
  have hlength := (handlersShown hl.resolve hlayout hhandlers (.refl b₃)).1
  -- the frames are the only attribute of the code
  have hframes : (Attribute.encodeAll attributes).length ≤
      8 + (Frame.encodeTable info.frames).length := by
    unfold stackMap at hattributes
    split at hattributes
    · cases hattributes
      change 2 ≤ _
      omega
    · obtain ⟨_, b₆, -, h₆⟩ := bind_run_ok.1 hattributes
      obtain ⟨a', b₇, ha', hresult⟩ := bind_run_ok.1 h₆
      cases hresult
      rw [Attribute.encodeAll, List.flatMap_singleton, Attribute.encode, (attributeOf_ok ha').1]
      simp only [List.length_append]
      change 2 + (2 + 4 + _) ≤ _
      omega
  have hentries : (handlers.flatMap HandlerEntry.encode).length = 8 * handlers.length :=
    Bytes.length_flatMap (fun entry : HandlerEntry => (rfl : entry.encode.length = 8)) handlers
  rw [Attribute.Fits, (attributeOf_ok ha).1, ProxyForge.CodeBody.encode]
  simp only [List.length_append, hentries]
  change 2 + 2 + 4 + _ + 2 + _ + _ < _
  omega

/-- **The attributes of a method fit** if its body has few labels. -/
theorem ClassDraft.MethodParts.fits {draft : MethodDraft} {member : Member} {thisName : String}
    {later : PoolBuilder} (h : ClassDraft.MethodParts thisName draft b b' member)
    (hlater : b'.Grows later) (htexts : later.pool.TextsFit)
    (hfew : ∀ body, draft.body = some body → body.FewLabels (draft.shape thisName)) :
    ∀ a ∈ member.attributes, a.Fits := by
  obtain ⟨hname, hdescriptor, hnone, hsome, hthrown, rfl⟩ := h
  have hthrownFit := (exceptionsAttribute_ok hthrown hlater).2.1
  have hgrows := ((extending_exceptionsAttribute _).of_ok hthrown).grows.trans hlater
  intro a ha
  rcases List.mem_append.1 ha with ha | ha
  · cases hbody : draft.body with
    | none =>
      obtain ⟨rfl, -⟩ := hnone hbody
      exact absurd ha List.not_mem_nil
    | some body =>
      obtain ⟨code, rfl, hcode⟩ := hsome body hbody
      have hgrows' := ((extending_codeAttribute _ _).of_ok hcode).grows.trans hgrows
      have hutf8 := hgrows'.utf8 (Interner.utf8_ok hdescriptor).2
      rw [List.mem_singleton.1 ha]
      exact fits_of_codeAttribute hcode (hfew body hbody) fun e he =>
        length_locals_entry_le he (htexts.utf8 hutf8)
  · exact hthrownFit a ha

end Code

end ProxyForge
