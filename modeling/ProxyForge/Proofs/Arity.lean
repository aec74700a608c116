import ProxyForge.Proofs.Descriptor
/-!
# How many parameters a descriptor names

A class may have any name, so the descriptor of a method may be read as other types than it was
written for: `(La;Lb;)V` names two classes, even if it was written for one with the name `a;Lb`.
Whatever the names are, each parameter is read as one at least, and a result is read as `void` if
it is `void` (`JvmType.arity_of_methodDescriptor`).
-/

namespace ProxyForge

namespace JvmType

/-- **A text that no type is read beyond**: it is empty, or it ends like the name of a class. -/
def Closed (text : List Char) : Prop :=
  text = [] ∨ ∃ front, text = front ++ [';']

variable {text front tail rest : List Char} {t u result : JvmType} {params ps acc : List JvmType}

theorem closed_nil : Closed [] :=
  .inl rfl

theorem Closed.of_cons {c : Char} (h : Closed (c :: text)) : Closed text := by
  rcases h with h | ⟨front, h⟩
  · cases h
  · cases front with
    | nil =>
      cases h
      exact closed_nil
    | cons d front =>
      cases h
      exact .inr ⟨front, rfl⟩

/-- Behind its first character, a closed text goes on unless that is the end of a name. -/
theorem Closed.ne_nil {c : Char} (h : Closed (c :: text)) (hc : c ≠ ';') : text ≠ [] := by
  rintro rfl
  rcases h with h | ⟨front, h⟩
  · cases h
  · cases front with
    | nil =>
      cases h
      exact hc rfl
    | cons d front => simp at h

/-- A name ends inside of a closed text. -/
theorem Closed.dropWhile (h : Closed text) (hne : text ≠ []) (tail : List Char) :
    ∃ after, Closed after ∧ (text ++ tail).dropWhile (· ≠ ';') = ';' :: (after ++ tail) := by
  induction text with
  | nil => exact absurd rfl hne
  | cons c text ih =>
    by_cases hc : c = ';'
    · subst hc
      exact ⟨text, h.of_cons, rfl⟩
    · obtain ⟨after, hafter, hdrop⟩ := ih h.of_cons (h.ne_nil hc)
      refine ⟨after, hafter, ?_⟩
      rw [List.cons_append, List.dropWhile_cons, if_pos (decide_eq_true hc), hdrop]

/-- **A type at the front of a closed text** ends in it. -/
theorem Takes.of_closed (h : Takes (front ++ tail) t rest) (hf : Closed front) (hne : front ≠ []) :
    ∃ front', Closed front' ∧ rest = front' ++ tail := by
  generalize htext : front ++ tail = text at h
  induction h generalizing front with
  | primitive p rest =>
    obtain ⟨c, front, rfl⟩ := List.exists_cons_of_ne_nil hne
    cases htext
    exact ⟨front, hf.of_cons, rfl⟩
  | void rest =>
    obtain ⟨c, front, rfl⟩ := List.exists_cons_of_ne_nil hne
    cases htext
    exact ⟨front, hf.of_cons, rfl⟩
  | @object name _ hsemicolon rest =>
    obtain ⟨c, front, rfl⟩ := List.exists_cons_of_ne_nil hne
    obtain ⟨hc, hrest⟩ := List.cons.inj htext
    -- the name ends at a semicolon, and the closed text has one
    obtain ⟨after, hafter, hdrop⟩ := hf.of_cons.dropWhile (hf.ne_nil (by rw [hc]; decide)) tail
    have hall : ∀ c ∈ name, decide (c ≠ ';') = true :=
      fun c hc => decide_eq_true (ne_of_mem_of_not_mem hc hsemicolon)
    have hname : (name ++ ';' :: rest).dropWhile (· ≠ ';') = ';' :: rest := by
      rw [List.dropWhile_append_of_pos hall]
      simp
    change front ++ tail = _ at hrest
    rw [hrest, hname] at hdrop
    exact ⟨after, hafter, List.tail_eq_of_cons_eq hdrop⟩
  | array _ _ ih =>
    obtain ⟨c, front, rfl⟩ := List.exists_cons_of_ne_nil hne
    obtain ⟨hc, hrest⟩ := List.cons.inj htext
    exact ih hf.of_cons (hf.ne_nil (by rw [hc]; decide)) hrest

/-- **The descriptor of a value** is read as that of a value, and nothing is read beyond it. -/
theorem Takes.of_value (h : Takes (t.descriptorChars ++ tail) u rest) (ht : t ≠ .void) :
    u ≠ .void ∧ ∃ front, Closed front ∧ rest = front ++ tail := by
  induction t generalizing u rest with
  | void => exact absurd rfl ht
  | primitive p =>
    obtain ⟨rfl, rfl⟩ := h.unique (.primitive p tail)
    exact ⟨nofun, [], closed_nil, rfl⟩
  | object name =>
    have hclosed : Closed (JvmType.object name).descriptorChars :=
      .inr ⟨'L' :: (Name.toInternal name).toList, rfl⟩
    obtain ⟨name', rfl⟩ := h.of_name
    exact ⟨nofun, h.of_closed hclosed (List.cons_ne_nil _ _)⟩
  | array element ih =>
    obtain ⟨inner, hvoid, rfl, helement⟩ := h.of_bracket
    refine ⟨nofun, (ih helement ?_).2⟩
    rintro rfl
    exact hvoid (helement.unique (.void tail)).1

/-- The text behind the parenthesis of a parameter list that ended early. -/
def Unfinished (tail rest : List Char) : Prop :=
  ∃ (front : List Char) (more : List JvmType), Closed front ∧ (∀ t ∈ more, t ≠ .void) ∧
    rest = front ++ (more.flatMap descriptorChars ++ ')' :: tail)

/-- **Each parameter is read as one at least**, unless the list ends early: a name may hold a
parenthesis. -/
theorem TakesParams.arity (h : TakesParams (front ++ (params.flatMap descriptorChars ++ ')' :: tail))
    ps rest) (hparams : ∀ t ∈ params, t ≠ .void) (hf : Closed front) :
    rest = tail ∧ params.length ≤ ps.length ∨ Unfinished tail rest := by
  generalize htext : front ++ (params.flatMap descriptorChars ++ ')' :: tail) = text at h
  induction h generalizing front params with
  | nil rest =>
    cases front with
    | cons c front =>
      cases htext
      exact .inr ⟨front, params, hf.of_cons, hparams, rfl⟩
    | nil =>
      cases params with
      | nil =>
        cases htext
        exact .inl ⟨rfl, Nat.le_refl _⟩
      | cons t params =>
        obtain ⟨c, cs, hcs, hne⟩ := exists_descriptorChars t
        rw [List.nil_append, List.flatMap_cons, hcs] at htext
        exact absurd (List.cons.inj htext).1 hne
  | @cons text after rest u ts hvoid h _ ih =>
    subst htext
    cases front with
    | cons c front =>
      obtain ⟨front', hfront', rfl⟩ := h.of_closed hf (List.cons_ne_nil _ _)
      exact (ih hparams hfront' rfl).imp_left fun ⟨hrest, hle⟩ => ⟨hrest, Nat.le_succ_of_le hle⟩
    | nil =>
      cases params with
      | nil =>
        -- a parenthesis is no type
        cases takeDescriptor_of_takes h
      | cons t params =>
        rw [List.nil_append, List.flatMap_cons, List.append_assoc] at h
        obtain ⟨-, front', hfront', rfl⟩ := h.of_value (hparams t List.mem_cons_self)
        have hmore := fun t' ht' => hparams t' (List.mem_cons_of_mem t ht')
        exact (ih hmore hfront' rfl).imp_left fun ⟨hrest, hle⟩ => ⟨hrest, Nat.succ_le_succ hle⟩

/-- What is left when a parameter list ends early is no type. -/
theorem Unfinished.not_takes (h : Unfinished tail rest) : ¬ Takes rest t [] := by
  obtain ⟨front, more, hfront, hmore, rfl⟩ := h
  intro htakes
  cases front with
  | cons c front =>
    obtain ⟨front', -, hrest⟩ := htakes.of_closed hfront (List.cons_ne_nil _ _)
    simp at hrest
  | nil =>
    cases more with
    | nil => cases takeDescriptor_of_takes htakes
    | cons t more =>
      rw [List.nil_append, List.flatMap_cons, List.append_assoc] at htakes
      obtain ⟨-, front', -, hrest⟩ := htakes.of_value (hmore t List.mem_cons_self)
      simp at hrest

/-- A result is read as `void` if it is `void`. -/
theorem Takes.eq_void_iff (h : Takes result.descriptorChars t []) :
    t = .void ↔ result = .void := by
  by_cases hresult : result = .void
  · subst hresult
    exact iff_of_true (h.unique (.void [])).1 rfl
  · rw [← List.append_nil result.descriptorChars] at h
    exact iff_of_false (h.of_value hresult).1 hresult

/-- **The arity of a method descriptor**, whatever the names of its classes are: if it can be read,
each parameter was read as one at least, and the result as `void` if it is `void`. -/
theorem arity_of_methodDescriptor (hparams : ∀ t ∈ params, t ≠ .void)
    (h : ofMethodDescriptor (methodDescriptor params result) = .ok (ps, t)) :
    params.length ≤ ps.length ∧ (t = .void ↔ result = .void) := by
  obtain ⟨rest, htakes, hresult⟩ := ofMethodDescriptor_parts h
  change TakesParams ([] ++ (params.flatMap descriptorChars ++ ')' :: _)) _ _ at htakes
  rcases htakes.arity hparams closed_nil with ⟨rfl, hle⟩ | hearly
  · exact ⟨hle, hresult.eq_void_iff⟩
  · exact absurd hresult hearly.not_takes

end JvmType

end ProxyForge
