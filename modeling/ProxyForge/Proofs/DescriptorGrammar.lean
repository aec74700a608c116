import ProxyForge.Proofs.SourceName
import ProxyForge.Signature
/-!
# The grammar of descriptors

`MethodForm` says which texts are descriptors of methods, without a word of how they are read.
`JvmType.read_exactly`: these and no others are read; what is read is written as the same text with
slashes for dots; and no `void` is a parameter or stands in an array, of what is read or in what is
read from.
-/

namespace ProxyForge

/-! ## Forms -/

/-- The letters of the types of values. -/
def valueLetters : List Char := ['B', 'C', 'D', 'F', 'I', 'J', 'S', 'Z']

/-- **The form of a type of values**: a letter, a name between `L` and a semicolon, or a bracket
before the form of an element. -/
inductive ValueForm : List Char → Prop
  | letter {c : Char} (h : c ∈ valueLetters) : ValueForm [c]
  | name {name : List Char} (hne : name ≠ []) (hsemicolon : ';' ∉ name) :
      ValueForm ('L' :: (name ++ [';']))
  | element {form : List Char} (h : ValueForm form) : ValueForm ('[' :: form)

/-- **The form of a result**, which may be `void`. -/
def ResultForm (form : List Char) : Prop :=
  ValueForm form ∨ form = ['V']

/-- **The form of a method descriptor**: forms of parameters in parentheses, and one of a result. -/
def MethodForm (text : List Char) : Prop :=
  ∃ forms result, (∀ form ∈ forms, ValueForm form) ∧ ResultForm result ∧
    text = '(' :: (List.flatten forms ++ ')' :: result)

/-- Slashes for dots. -/
def slashed (chars : List Char) : List Char :=
  chars.map fun c => if c = '.' then '/' else c

namespace JvmType

variable {form text rest : List Char} {t result : JvmType} {params acc : List JvmType}
  {forms : List (List Char)} {whole : String}

/-- **A form and the type of values that it is read as.** -/
structure Shows (form : List Char) (t : JvmType) : Prop where
  chars : t.descriptorChars = slashed form
  noVoid : void ∉ t.parts

theorem self_mem_parts (t : JvmType) : t ∈ t.parts := by
  cases t <;> exact List.mem_cons_self

theorem Shows.ne_void (h : Shows form t) : t ≠ void := by
  rintro rfl
  exact h.noVoid (self_mem_parts void)

/-- With an array its element is among the parts. -/
theorem mem_parts_of_array_mem {element : JvmType} (h : array element ∈ t.parts) :
    element ∈ t.parts := by
  induction t with
  | array inner ih =>
    rcases List.mem_cons.1 h with heq | hmem
    · cases heq
      exact List.mem_cons_of_mem _ (self_mem_parts element)
    · exact List.mem_cons_of_mem _ (ih hmem)
  | _ => cases List.mem_singleton.1 h

/-! ## One type -/

/-- The primitives have these letters. -/
theorem mem_valueLetters {c : Char} : c ∈ valueLetters ↔ ∃ p : Primitive, p.letter = c := by
  constructor
  · intro hc
    simp only [valueLetters, List.mem_cons, List.not_mem_nil, or_false] at hc
    rcases hc with rfl | rfl | rfl | rfl | rfl | rfl | rfl | rfl
    exacts [⟨.byte, rfl⟩, ⟨.char, rfl⟩, ⟨.double, rfl⟩, ⟨.float, rfl⟩, ⟨.int, rfl⟩, ⟨.long, rfl⟩,
      ⟨.short, rfl⟩, ⟨.boolean, rfl⟩]
  · rintro ⟨p, rfl⟩
    cases p <;> decide

/-- **The form of a type of values is read** from the front of a text. -/
theorem takes_form (h : ValueForm form) :
    ∃ t, Shows form t ∧ ∀ rest, Takes (form ++ rest) t rest := by
  induction h with
  | letter hc =>
    obtain ⟨p, rfl⟩ := mem_valueLetters.1 hc
    refine ⟨primitive p, ⟨?_, ?_⟩, .primitive p⟩
    · cases p <;> rfl
    · simp [parts]
  | @name name hne hsemicolon =>
    refine ⟨object (Name.toBinary (String.ofList name)), ⟨?_, ?_⟩, fun rest => ?_⟩
    · rw [descriptorChars, Name.toList_toInternal, Name.toList_toBinary, String.toList_ofList,
        List.map_map]
      -- slashes become dots and slashes again
      have hname : name.map ((fun c => if c = '.' then '/' else c) ∘
          fun c => if c = '/' then '.' else c) = slashed name := by
        refine List.map_congr_left fun c _ => ?_
        by_cases hslash : c = '/' <;> simp [hslash]
      rw [hname]
      simp [slashed]
    · simp [parts]
    · simpa using Takes.object hne hsemicolon rest
  | element _ ih =>
    obtain ⟨t, hshows, htakes⟩ := ih
    refine ⟨array t, ⟨?_, ?_⟩, fun rest => .array hshows.ne_void (htakes rest)⟩
    · rw [descriptorChars, hshows.chars]
      rfl
    · simpa [parts] using hshows.noVoid

/-- **What is read has a form**: that of a type of values, or it is `void`. -/
theorem Takes.valueForm (h : Takes text t rest) :
    (t = .void ∧ text = 'V' :: rest) ∨ ∃ form, ValueForm form ∧ text = form ++ rest := by
  induction h with
  | primitive p rest => exact .inr ⟨[p.letter], .letter (mem_valueLetters.2 ⟨p, rfl⟩), rfl⟩
  | void rest => exact .inl ⟨rfl, rfl⟩
  | @object name hne hsemicolon rest =>
    exact .inr ⟨'L' :: (name ++ [';']), .name hne hsemicolon, by simp⟩
  | array hvoid _ ih =>
    rcases ih with ⟨rfl, -⟩ | ⟨form, hform, rfl⟩
    · exact absurd rfl hvoid
    · exact .inr ⟨'[' :: form, .element hform, rfl⟩

/-- **The form of a result is read** as a whole text. -/
theorem takes_resultForm (h : ResultForm form) :
    ∃ t, Takes form t [] ∧ t.descriptorChars = slashed form ∧ array void ∉ t.parts := by
  rcases h with h | rfl
  · obtain ⟨t, hshows, htakes⟩ := takes_form h
    have hwhole := htakes []
    rw [List.append_nil] at hwhole
    exact ⟨t, hwhole, hshows.chars, fun hmem => hshows.noVoid (mem_parts_of_array_mem hmem)⟩
  · exact ⟨void, .void [], rfl, by simp [parts]⟩

theorem Takes.resultForm (h : Takes text t []) : ResultForm text := by
  rcases h.valueForm with ⟨-, rfl⟩ | ⟨form, hform, rfl⟩
  · exact .inr rfl
  · exact .inl (by rwa [List.append_nil])

/-- **No array of `void` is read**, whatever stands behind it. -/
theorem takeDescriptor_voidArray (n : Nat) (rest : List Char) :
    takeDescriptor (List.replicate (n + 1) '[' ++ 'V' :: rest) = .error .voidArray := by
  induction n with
  | zero => rfl
  | succ n ih =>
    rw [List.replicate_succ, List.cons_append, takeDescriptor, if_neg (by decide), if_pos rfl, ih]

/-! ## Parameters -/

/-- **Forms of parameters are read** one after the other, whatever stands behind them. -/
theorem takeParams_forms (h : ∀ form ∈ forms, ValueForm form) :
    ∃ ts, List.Forall₂ Shows forms ts ∧ ∀ whole acc tail,
      takeParams whole acc (forms.flatten ++ tail) = takeParams whole (ts.reverse ++ acc) tail := by
  induction forms with
  | nil => exact ⟨[], .nil, fun _ _ _ => rfl⟩
  | cons form forms ih =>
    obtain ⟨t, hshows, htakes⟩ := takes_form (h form List.mem_cons_self)
    obtain ⟨ts, hall, hparams⟩ := ih fun f hf => h f (List.mem_cons_of_mem form hf)
    refine ⟨t :: ts, .cons hshows hall, fun whole acc tail => ?_⟩
    rw [List.flatten_cons, List.append_assoc, takeParams_of_takes hshows.ne_void (htakes _), hparams]
    simp

/-- **Parameters that are read have forms**, up to the parenthesis behind them. -/
theorem TakesParams.valueForms (h : TakesParams text params rest) :
    ∃ forms, (∀ form ∈ forms, ValueForm form) ∧ text = List.flatten forms ++ ')' :: rest := by
  induction h with
  | nil rest => exact ⟨[], List.forall_mem_nil _, rfl⟩
  | cons hvoid h _ ih =>
    obtain ⟨forms, hforms, rfl⟩ := ih
    rcases h.valueForm with ⟨rfl, -⟩ | ⟨form, hform, rfl⟩
    · exact absurd rfl hvoid
    · refine ⟨form :: forms, List.forall_mem_cons.2 ⟨hform, hforms⟩, ?_⟩
      rw [List.flatten_cons, List.append_assoc]

/-- What shows as many parameters is written as the forms of them are, with slashes for dots. -/
theorem flatMap_descriptorChars (h : List.Forall₂ Shows forms params) :
    params.flatMap descriptorChars = slashed forms.flatten := by
  induction h with
  | nil => rfl
  | cons hshows _ ih =>
    rw [List.flatMap_cons, ih, hshows.chars, List.flatten_cons, slashed, slashed, slashed,
      List.map_append]

theorem noVoid_of_shows (h : List.Forall₂ Shows forms params) :
    ∀ t ∈ params, void ∉ t.parts := by
  induction h with
  | nil => exact List.forall_mem_nil _
  | cons hshows _ ih => exact List.forall_mem_cons.2 ⟨hshows.noVoid, ih⟩

/-! ## Method descriptors -/

/-- **The form of a method descriptor is read**, as types that show its forms. -/
theorem ofMethodDescriptor_form {text : String} {form : List Char}
    (hforms : ∀ form ∈ forms, ValueForm form) (hform : ResultForm form)
    (htext : text.toList = '(' :: (forms.flatten ++ ')' :: form)) :
    ∃ params result, ofMethodDescriptor text = .ok (params, result) ∧
      List.Forall₂ Shows forms params ∧ result.descriptorChars = slashed form ∧
        array void ∉ result.parts := by
  obtain ⟨params, hshows, htake⟩ := takeParams_forms hforms
  obtain ⟨result, hresult, hchars, hvoid⟩ := takes_resultForm hform
  refine ⟨params, result, ?_, hshows, hchars, hvoid⟩
  have hend : takeParams text (params.reverse ++ []) (')' :: form) = .ok (params, form) := by
    rw [takeParams, if_pos rfl, List.append_nil, List.reverse_reverse]
  have hparams : TakesParams (forms.flatten ++ ')' :: form) params form := by
    obtain ⟨ts, hts, htakes⟩ := takesParams_of_takeParams ((htake text [] _).trans hend)
    rw [List.reverse_nil, List.nil_append] at hts
    exact hts ▸ htakes
  exact ofMethodDescriptor_eq_ok.2 ⟨_, _, htext, hparams, hresult⟩

/-- **A method descriptor that is read has the form of one.** -/
theorem form_of_ofMethodDescriptor {text : String}
    (h : ofMethodDescriptor text = .ok (params, result)) :
    ∃ forms form, (∀ form ∈ forms, ValueForm form) ∧ ResultForm form ∧
      text.toList = '(' :: (List.flatten forms ++ ')' :: form) := by
  obtain ⟨tail, rest, htext, hparams, hresult⟩ := ofMethodDescriptor_eq_ok.1 h
  obtain ⟨forms, hforms, rfl⟩ := hparams.valueForms
  exact ⟨forms, rest, hforms, hresult.resultForm, htext⟩

/-! ## No void -/

/-- What is behind the parenthesis at the front of a text. -/
theorem ofMethodDescriptor_of_toList {text : String} {tail : List Char}
    (h : text.toList = '(' :: tail) : ofMethodDescriptor text = (do
      let (params, rest) ← takeParams text [] tail
      let result ← ofDescriptorChars rest
      return (params, result)) := by
  unfold ofMethodDescriptor
  rw [h]
  rfl

/-- Behind forms of parameters, an error in the next one is that of the whole text. -/
theorem ofMethodDescriptor_error {text : String} {tail : List Char} {e : TypeError}
    (hforms : ∀ form ∈ forms, ValueForm form) (htext : text.toList = '(' :: (forms.flatten ++ tail))
    (h : ∀ acc, takeParams text acc tail = .error e) : ofMethodDescriptor text = .error e := by
  obtain ⟨params, -, htake⟩ := takeParams_forms hforms
  rw [ofMethodDescriptor_of_toList htext, htake, h]
  rfl

/-- **A parameter that is `void`** is an error that quotes the whole text. -/
theorem ofMethodDescriptor_void {text : String} (hforms : ∀ form ∈ forms, ValueForm form)
    (htext : text.toList = '(' :: (forms.flatten ++ 'V' :: rest)) :
    ofMethodDescriptor text = .error (.invalidDescriptor text) := by
  refine ofMethodDescriptor_error hforms htext fun acc => ?_
  rw [takeParams, if_neg (by decide)]
  rfl

/-- **A parameter that is an array of `void`.** -/
theorem ofMethodDescriptor_voidArray {text : String} {n : Nat}
    (hforms : ∀ form ∈ forms, ValueForm form)
    (htext : text.toList = '(' :: (forms.flatten ++ (List.replicate (n + 1) '[' ++ 'V' :: rest))) :
    ofMethodDescriptor text = .error .voidArray := by
  refine ofMethodDescriptor_error hforms htext fun acc => ?_
  have htake := takeDescriptor_voidArray n rest
  rw [List.replicate_succ, List.cons_append] at htake ⊢
  rw [takeParams, if_neg (by decide)]
  split
  · next heq => rw [Except.error.inj (htake.symm.trans heq)]
  · next heq => cases htake.symm.trans heq
  · next heq => cases htake.symm.trans heq

/-- **A result that is an array of `void`.** -/
theorem ofMethodDescriptor_voidArray_result {text : String} {n : Nat}
    (hforms : ∀ form ∈ forms, ValueForm form)
    (htext : text.toList =
      '(' :: (forms.flatten ++ ')' :: (List.replicate (n + 1) '[' ++ 'V' :: rest))) :
    ofMethodDescriptor text = .error .voidArray := by
  obtain ⟨params, -, htake⟩ := takeParams_forms hforms
  rw [ofMethodDescriptor_of_toList htext, htake, takeParams, if_pos rfl]
  change (ofDescriptorChars _ >>= _) = _
  rw [ofDescriptorChars, takeDescriptor_voidArray]
  rfl

/-! ## Exactly the grammar -/

/-- **Method descriptors are read exactly.** A text is read if it has the form of one, and no other
is. A signature that is read is written as the text with slashes for dots, and no `void` is among
its parameters or in an array. A signature of types that source texts name, with parameters other
than `void`, is read back. Where a parameter is `void`, or a parameter or the result is an array of
`void`, reading fails, and the error says which. -/
theorem read_exactly (text : String) :
    ((∃ params result, ofMethodDescriptor text = .ok (params, result)) ↔
      MethodForm text.toList) ∧
    (∀ s : Signature, ofMethodDescriptor text = .ok (s.params, s.result) →
      s.descriptor = Name.toInternal text ∧ (∀ t ∈ s.params, void ∉ t.parts) ∧
        array void ∉ s.result.parts) ∧
    (∀ s : Signature, (∀ t ∈ s.params, t.IsSource ∧ t ≠ void) → s.result.IsSource →
      ofMethodDescriptor s.descriptor = .ok (s.params, s.result)) ∧
    ∀ (forms : List (List Char)) (rest : List Char), (∀ form ∈ forms, ValueForm form) →
      (text.toList = '(' :: (forms.flatten ++ 'V' :: rest) →
        ofMethodDescriptor text = .error (.invalidDescriptor text)) ∧
      ∀ n, (text.toList = '(' :: (forms.flatten ++ (List.replicate (n + 1) '[' ++ 'V' :: rest)) ∨
          text.toList =
            '(' :: (forms.flatten ++ ')' :: (List.replicate (n + 1) '[' ++ 'V' :: rest))) →
        ofMethodDescriptor text = .error .voidArray := by
  refine ⟨⟨?_, ?_⟩, ?_, ?_, fun forms rest hforms =>
    ⟨ofMethodDescriptor_void hforms, fun n => ?_⟩⟩
  · rintro ⟨params, result, h⟩
    exact form_of_ofMethodDescriptor h
  · rintro ⟨forms, form, hforms, hform, htext⟩
    obtain ⟨params, result, h, -⟩ := ofMethodDescriptor_form hforms hform htext
    exact ⟨params, result, h⟩
  · intro s h
    obtain ⟨forms, form, hforms, hform, htext⟩ := form_of_ofMethodDescriptor h
    obtain ⟨params, result, h', hshows, hchars, hvoid⟩ :=
      ofMethodDescriptor_form hforms hform htext
    obtain ⟨rfl, rfl⟩ := Prod.mk.inj (Except.ok.inj (h'.symm.trans h))
    refine ⟨String.toList_injective ?_, noVoid_of_shows hshows, hvoid⟩
    rw [Signature.descriptor, toList_methodDescriptor, methodDescriptorChars,
      flatMap_descriptorChars hshows, hchars, Name.toList_toInternal, htext]
    simp [slashed]
  · intro s hparams hresult
    refine ofMethodDescriptor_methodDescriptor (fun t ht => ?_) ?_
    · obtain ⟨⟨source, hsource⟩, hvoid⟩ := hparams t ht
      exact Bool.and_eq_true_iff.2 ⟨decide_eq_true hvoid, isReadable_ofSourceName hsource⟩
    · obtain ⟨source, hsource⟩ := hresult
      exact isReadable_ofSourceName hsource
  · rintro (htext | htext)
    · exact ofMethodDescriptor_voidArray hforms htext
    · exact ofMethodDescriptor_voidArray_result hforms htext

/-- An `int` and an array, whose name comes with a dot and goes with a slash; and behind the `int`
an array of `void`. -/
theorem read_exactly_dotted :
    MethodForm "(I[La.b/C;)V".toList ∧
      methodDescriptor [primitive .int, array (object "a.b.C")] void = "(I[La/b/C;)V" ∧
      ofMethodDescriptor "(I[La/b/C;)V" =
        .ok ([primitive .int, array (object "a.b.C")], void) ∧
      ofMethodDescriptor "(IV)V" = .error (.invalidDescriptor "(IV)V") ∧
      ofMethodDescriptor "(I[[V)V" = .error .voidArray := by
  have hfirst : ofMethodDescriptor "(I[La.b/C;)V" =
      .ok ([primitive .int, array (object "a.b.C")], void) := by cbv
  have hletter : ∀ form ∈ [['I']], ValueForm form :=
    List.forall_mem_singleton.2 (.letter (by decide))
  obtain ⟨hform, hwritten, hagain, -⟩ := read_exactly "(I[La.b/C;)V"
  have hchars := (hwritten ⟨"m", [primitive .int, array (object "a.b.C")], void⟩ hfirst).1
  have hslashes : Name.toInternal "(I[La.b/C;)V" = "(I[La/b/C;)V" := by cbv
  have hback := hagain ⟨"m", [primitive .int, array (object "a.b.C")], void⟩
    (List.forall_mem_cons.2 ⟨⟨⟨"int", by cbv⟩, by decide⟩,
      List.forall_mem_singleton.2 ⟨⟨"a.b.C[]", by cbv⟩, by decide⟩⟩) ⟨"void", by cbv⟩
  rw [hslashes] at hchars
  rw [hchars] at hback
  have hvoid := ((read_exactly "(IV)V").2.2.2 [['I']] [')', 'V'] hletter).1 (by decide)
  have harray := ((read_exactly "(I[[V)V").2.2.2 [['I']] [')', 'V'] hletter).2 1 (.inl (by decide))
  exact ⟨hform.1 ⟨_, _, hfirst⟩, hchars, hback, hvoid, harray⟩

end JvmType

end ProxyForge
