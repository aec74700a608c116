import ProxyForge.JvmType.SourceName
import ProxyForge.Proofs.Name
import ProxyForge.Proofs.Outcome
/-!
# Descriptors are read back

`JvmType.Takes` says which type stands at the front of a text, and `JvmType.TakesParams` which
parameters do; the readers find these and no others (`JvmType.takeDescriptor_eq_ok`,
`JvmType.ofMethodDescriptor_eq_ok`). A descriptor is read as the type that it was written for
(`JvmType.ofDescriptor_descriptor`), and so is the descriptor of a method
(`JvmType.ofMethodDescriptor_methodDescriptor`), as long as the names of classes have no character
with a meaning of its own. A plain name in source stands for a type of this kind
(`JvmType.isReadable_ofPlainName`).
-/

namespace ProxyForge

open Outcome

namespace Name

/-- May the character stand in the binary name of a class that is part of a descriptor? -/
def isInner (c : Char) : Bool :=
  c ≠ '/' && c ≠ ';'

/-- Can the binary name be read back from a descriptor? -/
def isReadable (name : String) : Bool :=
  !name.toList.isEmpty && name.toList.all isInner

theorem toList_toInternal (name : String) :
    (toInternal name).toList = name.toList.map fun c => if c = '.' then '/' else c :=
  String.toList_map

theorem toList_toBinary (name : String) :
    (toBinary name).toList = name.toList.map fun c => if c = '/' then '.' else c :=
  String.toList_map

/-- A name without slashes comes back from its internal form. -/
theorem toBinary_toInternal {name : String} (h : ∀ c ∈ name.toList, c ≠ '/') :
    toBinary (toInternal name) = name := by
  refine String.toList_injective ?_
  rw [toList_toBinary, toList_toInternal, List.map_map]
  conv => rhs; rw [← List.map_id name.toList]
  refine List.map_congr_left fun c hc => ?_
  have := h c hc
  by_cases hdot : c = '.'
  · simp [hdot]
  · simp [hdot, this]

/-- A name without dots comes back from its binary form. -/
theorem toInternal_toBinary {name : String} (h : ∀ c ∈ name.toList, c ≠ '.') :
    toInternal (toBinary name) = name := by
  refine String.toList_injective ?_
  rw [toList_toInternal, toList_toBinary, List.map_map]
  conv => rhs; rw [← List.map_id name.toList]
  refine List.map_congr_left fun c hc => ?_
  have := h c hc
  by_cases hslash : c = '/'
  · simp [hslash]
  · simp [hslash, this]

/-- The internal form of a readable name has no semicolon. -/
theorem ne_semicolon_of_mem {name : String} (h : isReadable name) {c : Char}
    (hc : c ∈ (toInternal name).toList) : c ≠ ';' := by
  rw [toList_toInternal] at hc
  obtain ⟨d, hd, rfl⟩ := List.mem_map.1 hc
  have hinner := List.all_eq_true.1 (Bool.and_eq_true_iff.1 h).2 d hd
  simp only [isInner, Bool.and_eq_true, decide_eq_true_eq] at hinner
  split
  · decide
  · exact hinner.2

end Name

namespace JvmType

/-- Can the type be read back from its descriptor? -/
def isReadable : JvmType → Bool
  | primitive _ => true
  | void => true
  | object name => Name.isReadable name
  | array element => element ≠ void && element.isReadable

/-- A type of values that can be read back. -/
def isReadableValue (t : JvmType) : Bool :=
  t ≠ void && t.isReadable

theorem toList_descriptor (t : JvmType) : t.descriptor.toList = t.descriptorChars :=
  String.toList_ofList

theorem toList_methodDescriptor (params : List JvmType) (result : JvmType) :
    (methodDescriptor params result).toList = methodDescriptorChars params result :=
  String.toList_ofList

variable {text after rest : List Char} {t u result : JvmType} {params acc ts : List JvmType}
  {whole : String}

/-! ## One type -/

/-- **A type at the front of a text, and the rest.** The name of a class ends with the first
semicolon. -/
inductive Takes : List Char → JvmType → List Char → Prop
  | primitive (p : Primitive) (rest : List Char) : Takes (p.letter :: rest) (.primitive p) rest
  | void (rest : List Char) : Takes ('V' :: rest) .void rest
  | object {name : List Char} (hne : name ≠ []) (hsemicolon : ';' ∉ name) (rest : List Char) :
      Takes ('L' :: (name ++ ';' :: rest)) (.object (Name.toBinary (String.ofList name))) rest
  | array {text rest : List Char} {element : JvmType} (hvoid : element ≠ .void)
      (h : Takes text element rest) : Takes ('[' :: text) (.array element) rest

/-- What is read of a class. -/
theorem takes_of_dropWhile {tail : List Char} {d : Char} (hne : tail.takeWhile (· ≠ ';') ≠ [])
    (hback : tail.dropWhile (· ≠ ';') = d :: rest) :
    Takes ('L' :: tail) (.object (Name.toBinary (String.ofList (tail.takeWhile (· ≠ ';'))))) rest := by
  -- what stops the name is a semicolon
  have hstop : d = ';' := by
    have hnot := List.head?_dropWhile_not (· ≠ ';') tail
    rw [hback] at hnot
    simpa using hnot
  have hsplit := List.takeWhile_append_dropWhile (p := (· ≠ ';')) (l := tail)
  rw [hback, hstop] at hsplit
  have htakes := Takes.object hne (fun hmem => by simpa using List.mem_takeWhile_imp hmem) rest
  rwa [hsplit] at htakes

theorem takes_of_takeDescriptor (h : takeDescriptor text = .ok (t, rest)) : Takes text t rest := by
  induction text generalizing t rest with
  | nil => cases h
  | cons c tail ih =>
    rw [takeDescriptor] at h
    split at h
    · next hc =>
      subst hc
      split at h
      · next hfront hback =>
        cases h
        exact takes_of_dropWhile (by rw [hfront]; exact List.cons_ne_nil _ _) hback
      · cases h
    · split at h
      · next hc =>
        subst hc
        split at h
        · cases h
        · cases h
        · next hvoid helement =>
          cases h
          exact .array hvoid (ih helement)
      · split at h
        · next hc =>
          subst hc
          cases h
          exact .void _
        · split at h
          · next p hp =>
            cases h
            obtain rfl : p.letter = c := by simpa using List.find?_some hp
            exact .primitive p _
          · cases h

theorem takeDescriptor_of_takes (h : Takes text t rest) : takeDescriptor text = .ok (t, rest) := by
  induction h with
  | primitive p rest => cases p <;> rfl
  | void rest => rfl
  | @object name hne hsemicolon rest =>
    have hall : ∀ c ∈ name, decide (c ≠ ';') = true :=
      fun c hc => decide_eq_true (ne_of_mem_of_not_mem hc hsemicolon)
    have htake : (name ++ ';' :: rest).takeWhile (· ≠ ';') = name := by
      rw [List.takeWhile_append_of_pos hall]
      simp
    have hdrop : (name ++ ';' :: rest).dropWhile (· ≠ ';') = ';' :: rest := by
      rw [List.dropWhile_append_of_pos hall]
      simp
    obtain ⟨c, cs, rfl⟩ := List.exists_cons_of_ne_nil hne
    rw [takeDescriptor, if_pos rfl, htake, hdrop]
  | @array text rest element hvoid _ ih =>
    rw [takeDescriptor, if_neg (by decide), if_pos rfl, ih]
    cases element with
    | void => exact absurd rfl hvoid
    | _ => rfl

/-- **What is read of a text** is the type at its front. -/
theorem takeDescriptor_eq_ok : takeDescriptor text = .ok (t, rest) ↔ Takes text t rest :=
  ⟨takes_of_takeDescriptor, takeDescriptor_of_takes⟩

/-- Behind an `L` is the name of a class. -/
theorem Takes.of_name (h : Takes ('L' :: text) t rest) : ∃ name, t = .object name := by
  generalize htext : 'L' :: text = whole at h
  cases h with
  | primitive p => cases p <;> cases htext
  | void => cases htext
  | object => exact ⟨_, rfl⟩
  | array => cases htext

/-- Behind a bracket is an element. -/
theorem Takes.of_bracket (h : Takes ('[' :: text) t rest) :
    ∃ element, element ≠ .void ∧ t = .array element ∧ Takes text element rest := by
  generalize htext : '[' :: text = whole at h
  cases h with
  | primitive p => cases p <;> cases htext
  | void => cases htext
  | object => cases htext
  | array hvoid h =>
    cases htext
    exact ⟨_, hvoid, rfl, h⟩

/-- There is one type at most at the front of a text. -/
theorem Takes.unique (h : Takes text t rest) (h' : Takes text u after) : t = u ∧ rest = after :=
  Prod.mk.inj (Except.ok.inj
    ((takeDescriptor_of_takes h).symm.trans (takeDescriptor_of_takes h')))

/-- A text that is one type. -/
theorem ofDescriptorChars_eq_ok : ofDescriptorChars text = .ok t ↔ Takes text t [] := by
  rw [← takeDescriptor_eq_ok, ofDescriptorChars]
  split
  · next heq => simp [heq]
  · next heq => simp [heq]
  · next heq => simp [heq]

/-- **The descriptor of a type** is taken from the front of a text as the type. -/
theorem takes_descriptorChars (h : t.isReadable) (rest : List Char) :
    Takes (t.descriptorChars ++ rest) t rest := by
  induction t generalizing rest with
  | primitive p => exact .primitive p rest
  | void => exact .void rest
  | object name =>
    have hback : Name.toBinary (Name.toInternal name) = name := by
      refine Name.toBinary_toInternal fun c hc => ?_
      have hinner := List.all_eq_true.1 (Bool.and_eq_true_iff.1 h).2 c hc
      simp only [Name.isInner, Bool.and_eq_true, decide_eq_true_eq] at hinner
      exact hinner.1
    have hne : (Name.toInternal name).toList ≠ [] := by
      rw [Name.toList_toInternal]
      simpa [Name.isReadable] using (Bool.and_eq_true_iff.1 h).1
    have htakes := Takes.object hne (fun hc => Name.ne_semicolon_of_mem h hc rfl) rest
    rw [String.ofList_toList, hback] at htakes
    simpa [descriptorChars] using htakes
  | array element ih =>
    obtain ⟨hvoid, helement⟩ := Bool.and_eq_true_iff.1 h
    exact .array (of_decide_eq_true hvoid) (ih helement rest)

/-- **The descriptor of a type is read as the type.** -/
theorem ofDescriptor_descriptor {t : JvmType} (h : t.isReadable) :
    ofDescriptor t.descriptor = .ok t := by
  have htakes := takes_descriptorChars h []
  rw [List.append_nil] at htakes
  rw [ofDescriptor, toList_descriptor]
  exact ofDescriptorChars_eq_ok.2 htakes

/-! ## Methods -/

/-- **Types of values up to a parenthesis, and the rest.** -/
inductive TakesParams : List Char → List JvmType → List Char → Prop
  | nil (rest : List Char) : TakesParams (')' :: rest) [] rest
  | cons {text after rest : List Char} {t : JvmType} {ts : List JvmType} (hvoid : t ≠ .void)
      (h : Takes text t after) (hs : TakesParams after ts rest) : TakesParams text (t :: ts) rest

theorem takesParams_of_takeParams (h : takeParams whole acc text = .ok (params, rest)) :
    ∃ ts, params = acc.reverse ++ ts ∧ TakesParams text ts rest := by
  induction acc, text using takeParams.induct with
  | case1 => simp [takeParams] at h
  | case2 acc tail =>
    rw [takeParams, if_pos rfl] at h
    cases h
    exact ⟨[], (List.append_nil _).symm, .nil _⟩
  | case3 acc c tail hc e htake =>
    rw [takeParams, if_neg hc] at h
    split at h
    · cases h
    · cases h
    · next htake' => cases htake.symm.trans htake'
  | case4 acc c tail hc after htake =>
    rw [takeParams, if_neg hc] at h
    split at h
    · cases h
    · cases h
    · next hvoid htake' =>
      cases htake.symm.trans htake'
      exact (hvoid rfl).elim
  | case5 acc c tail hc t after hvoid htake ih =>
    rw [takeParams, if_neg hc] at h
    split at h
    · cases h
    · cases h
    · next htake' =>
      cases htake.symm.trans htake'
      obtain ⟨ts, rfl, hts⟩ := ih h
      exact ⟨t :: ts, by simp, .cons hvoid (takes_of_takeDescriptor htake) hts⟩

/-- A type of values at the front is read as the next parameter. -/
theorem takeParams_of_takes (hvoid : t ≠ .void) (h : Takes text t rest) (whole : String)
    (acc : List JvmType) : takeParams whole acc text = takeParams whole (t :: acc) rest := by
  have htake := takeDescriptor_of_takes h
  cases text with
  | nil => cases htake
  | cons c text =>
    by_cases hc : c = ')'
    · subst hc
      cases htake
    · rw [takeParams, if_neg hc]
      split
      · next heq => cases htake.symm.trans heq
      · next heq =>
        cases htake.symm.trans heq
        exact absurd rfl hvoid
      · next heq =>
        cases htake.symm.trans heq
        rfl

theorem takeParams_of_takesParams (h : TakesParams text ts rest) (whole : String)
    (acc : List JvmType) : takeParams whole acc text = .ok (acc.reverse ++ ts, rest) := by
  induction h generalizing acc with
  | nil rest => rw [takeParams, if_pos rfl, List.append_nil]
  | cons hvoid h _ ih =>
    rw [takeParams_of_takes hvoid h, ih, List.reverse_cons, List.append_assoc,
      List.singleton_append]

/-- Anything but a parenthesis begins a parameter. -/
theorem TakesParams.of_cons {c : Char} (h : TakesParams (c :: text) ts rest) (hc : c ≠ ')') :
    ∃ t after us, ts = t :: us ∧ Takes (c :: text) t after ∧ TakesParams after us rest := by
  cases h with
  | nil => exact absurd rfl hc
  | cons _ h hs => exact ⟨_, _, _, rfl, h, hs⟩

/-- There is one list of parameters at most at the front of a text. -/
theorem TakesParams.unique (h : TakesParams text ts rest) (h' : TakesParams text params after) :
    ts = params ∧ rest = after :=
  Prod.mk.inj (Except.ok.inj
    ((takeParams_of_takesParams h "" []).symm.trans (takeParams_of_takesParams h' "" [])))

/-- **What is read of a method**: parameters behind a parenthesis, and a result behind them. -/
theorem ofMethodDescriptor_eq_ok {text : String} : ofMethodDescriptor text = .ok (params, result) ↔
    ∃ tail rest, text.toList = '(' :: tail ∧ TakesParams tail params rest ∧ Takes rest result [] := by
  unfold ofMethodDescriptor
  constructor
  · intro h
    split at h
    · next tail htext =>
      obtain ⟨⟨params', rest⟩, htake, hrest⟩ := bind_eq_ok.1 h
      obtain ⟨result', hlast, hresult⟩ := bind_eq_ok.1 hrest
      cases hresult
      obtain ⟨ts, rfl, hts⟩ := takesParams_of_takeParams htake
      exact ⟨tail, rest, htext, hts, ofDescriptorChars_eq_ok.1 hlast⟩
    · cases h
  · rintro ⟨tail, rest, htext, hparams, hresult⟩
    rw [htext]
    exact bind_eq_ok.2 ⟨_, takeParams_of_takesParams hparams text [],
      bind_eq_ok.2 ⟨_, ofDescriptorChars_eq_ok.2 hresult, rfl⟩⟩

/-- What is read of a descriptor that was written for some types. -/
theorem ofMethodDescriptor_parts {ps : List JvmType}
    (h : ofMethodDescriptor (methodDescriptor params result) = .ok (ps, t)) :
    ∃ rest, TakesParams (params.flatMap descriptorChars ++ ')' :: result.descriptorChars) ps rest ∧
      Takes rest t [] := by
  obtain ⟨tail, rest, htext, hparams, hresult⟩ := ofMethodDescriptor_eq_ok.1 h
  cases (toList_methodDescriptor params result).symm.trans htext
  exact ⟨rest, hparams, hresult⟩

/-- **The descriptors of parameters** are taken up to the parenthesis behind them. -/
theorem takesParams_flatMap (h : ∀ t ∈ params, t.isReadableValue) (rest : List Char) :
    TakesParams (params.flatMap descriptorChars ++ ')' :: rest) params rest := by
  induction params with
  | nil => exact .nil rest
  | cons t params ih =>
    obtain ⟨hvoid, ht⟩ := Bool.and_eq_true_iff.1 (h t List.mem_cons_self)
    have hmore := ih fun t' ht' => h t' (List.mem_cons_of_mem t ht')
    rw [List.flatMap_cons, List.append_assoc]
    exact .cons (of_decide_eq_true hvoid) (takes_descriptorChars ht _) hmore

/-- **The descriptor of a method is read** as its parameters and its result. -/
theorem ofMethodDescriptor_methodDescriptor (hparams : ∀ t ∈ params, t.isReadableValue)
    (hresult : result.isReadable) :
    ofMethodDescriptor (methodDescriptor params result) = .ok (params, result) := by
  have hlast := takes_descriptorChars hresult []
  rw [List.append_nil] at hlast
  exact ofMethodDescriptor_eq_ok.2 ⟨_, _, toList_methodDescriptor params result,
    takesParams_flatMap hparams _, hlast⟩

/-- A text that is the descriptor of a method is read as that. -/
theorem ofMethodDescriptor_of_eq {text : String} (h : text = methodDescriptor params result)
    (hparams : params.all isReadableValue) (hresult : result.isReadable) :
    ofMethodDescriptor text = .ok (params, result) := by
  rw [h]
  exact ofMethodDescriptor_methodDescriptor (List.all_eq_true.1 hparams) hresult

/-! ## Lengths -/

/-- No descriptor begins with the parenthesis behind parameters. -/
theorem exists_descriptorChars (t : JvmType) :
    ∃ c cs, t.descriptorChars = c :: cs ∧ c ≠ ')' := by
  cases t with
  | primitive p => exact ⟨p.letter, [], rfl, by cases p <;> decide⟩
  | void => exact ⟨_, _, rfl, by decide⟩
  | object name => exact ⟨_, _, rfl, by decide⟩
  | array element => exact ⟨_, _, rfl, by decide⟩

/-- A type takes as many characters as its descriptor has. -/
theorem Takes.length (h : Takes text t rest) :
    t.descriptorChars.length + rest.length = text.length := by
  induction h with
  | primitive p rest => exact Nat.add_comm _ _
  | void rest => exact Nat.add_comm _ _
  | object _ _ rest =>
    simp only [descriptorChars, Name.toList_toInternal, Name.toList_toBinary, List.length_cons,
      List.length_append, List.length_map, String.toList_ofList, List.length_nil]
    omega
  | array _ _ ih =>
    simp only [descriptorChars, List.length_cons]
    omega

theorem length_ofDescriptorChars (h : ofDescriptorChars text = .ok t) :
    t.descriptorChars.length = text.length :=
  (ofDescriptorChars_eq_ok.1 h).length

theorem TakesParams.length (h : TakesParams text ts rest) :
    (ts.flatMap descriptorChars).length + 1 + rest.length = text.length := by
  induction h with
  | nil rest => exact Nat.add_comm 1 _
  | cons _ h _ ih =>
    have hone := h.length
    rw [List.flatMap_cons, List.length_append]
    omega

/-- **What is read of a method descriptor** has as many characters as it. -/
theorem length_ofMethodDescriptor {text : String}
    (h : ofMethodDescriptor text = .ok (params, result)) :
    (methodDescriptorChars params result).length = text.toList.length := by
  obtain ⟨tail, rest, htext, hparams, hresult⟩ := ofMethodDescriptor_eq_ok.1 h
  have hfront := hparams.length
  have hback : result.descriptorChars.length = rest.length := hresult.length
  rw [htext, methodDescriptorChars]
  simp only [List.length_cons, List.length_append]
  omega

/-! ## Source names -/

theorem isInner_of_isIdentifier {chars : List Char} (h : Name.isIdentifier chars) :
    ∀ c ∈ chars, Name.isInner c := by
  have hpart : ∀ c, Name.isIdentifierPart c → Name.isInner c := by
    intro c hc
    simp only [Name.isInner, Bool.and_eq_true, decide_eq_true_eq]
    constructor <;> rintro rfl <;> exact absurd hc (by decide +kernel)
  have hstart : ∀ c, Name.isIdentifierStart c → Name.isInner c := by
    intro c hc
    simp only [Name.isInner, Bool.and_eq_true, decide_eq_true_eq]
    constructor <;> rintro rfl <;> exact absurd hc (by decide +kernel)
  cases chars with
  | nil => exact nofun
  | cons c cs =>
    obtain ⟨hc, hcs⟩ := Bool.and_eq_true_iff.1 h
    intro d hd
    rcases List.mem_cons.1 hd with rfl | hd
    · exact hstart _ hc
    · exact hpart d (List.all_eq_true.1 hcs d hd)

theorem isInner_of_splitAt {chars : List Char}
    (h : ∀ piece ∈ Name.splitAt '.' chars, ∀ c ∈ piece, Name.isInner c) :
    ∀ c ∈ chars, Name.isInner c := by
  intro c hc
  have hsplit : c = '.' ∨ ∃ piece ∈ Name.splitAt '.' chars, c ∈ piece := Name.mem_splitAt hc
  rcases hsplit with rfl | ⟨piece, hpiece, hmem⟩
  · decide
  · exact h piece hpiece c hmem

/-- **Binary names can be read back.** -/
theorem isReadable_of_isBinary {name : String} (h : Name.isBinary name) : Name.isReadable name := by
  obtain ⟨hne, hall⟩ := Bool.and_eq_true_iff.1 h
  have hinner := isInner_of_splitAt fun piece hpiece =>
    isInner_of_isIdentifier (List.all_eq_true.1 hall piece hpiece)
  rw [Name.isReadable, Bool.and_eq_true_iff]
  refine ⟨?_, List.all_eq_true.2 hinner⟩
  have hname : name ≠ "" := of_decide_eq_true hne
  simpa using hname

theorem isReadable_ofPlainName {name : String} {t : JvmType} (h : ofPlainName name = .ok t) :
    t.isReadable := by
  unfold ofPlainName at h
  split at h
  · cases h
    rfl
  · split at h
    · cases h
      rfl
    · split at h
      · rename_i hbinary
        cases h
        exact isReadable_of_isBinary hbinary
      · cases h

end JvmType

end ProxyForge
