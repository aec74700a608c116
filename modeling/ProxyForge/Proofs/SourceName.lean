import ProxyForge.Proofs.Descriptor
/-!
# Source names of types

What a type is called in source names it again (`JvmType.IsSource.ofSourceName_sourceName`), if any
text names it at all. Blanks that stood in such a text are gone: none is in a keyword, an identifier
or a pair of brackets. `JvmType.named_exactly` says all that a text names: what the type is called,
what it is made of, and that its descriptor tells it from the others.
-/

namespace ProxyForge

/-! ## Blanks -/

namespace Text

/-- The code points of blanks. -/
def blankCodes : List Nat :=
  [0x9, 0xa, 0xb, 0xc, 0xd, 0x20, 0x85, 0xa0, 0x1680, 0x2000, 0x2001, 0x2002, 0x2003, 0x2004,
    0x2005, 0x2006, 0x2007, 0x2008, 0x2009, 0x200a, 0x2028, 0x2029, 0x202f, 0x205f, 0x3000]

theorem mem_blankCodes {c : Char} (h : isBlank c) : c.toNat ∈ blankCodes := by
  simp only [isBlank, Bool.or_eq_true, Bool.and_eq_true, decide_eq_true_eq, beq_iff_eq] at h
  simp only [blankCodes, List.mem_cons, List.not_mem_nil]
  omega

/-- **No blank is in an identifier.** -/
theorem isBlank_eq_false_of_isIdentifierPart {c : Char} (h : Name.isIdentifierPart c) :
    isBlank c = false := by
  have hnone : ∀ n ∈ blankCodes, Name.isIdentifierPart (Char.ofNat n) = false := by
    decide +kernel
  refine Bool.eq_false_iff.2 fun hblank => ?_
  have hc := hnone c.toNat (mem_blankCodes hblank)
  rw [Char.ofNat_toNat, h] at hc
  cases hc

theorem trimStart_eq_self {text : List Char} (h : ∀ c ∈ text, isBlank c = false) :
    trimStart text = text := by
  cases text with
  | nil => rfl
  | cons c rest => exact List.dropWhile_cons_of_neg (by simp [h c List.mem_cons_self])

/-- The characters that are no blanks. -/
def unblanked (text : List Char) : List Char :=
  text.filter (!isBlank ·)

/-- Trimming takes off nothing but blanks. -/
theorem unblanked_trimStart (text : List Char) : unblanked (trimStart text) = unblanked text := by
  have hblanks : unblanked (text.takeWhile isBlank) = [] :=
    List.filter_eq_nil_iff.2 fun c hc => by simp [List.mem_takeWhile_imp hc]
  calc unblanked (trimStart text)
      = unblanked (text.takeWhile isBlank) ++ unblanked (trimStart text) := by
        rw [hblanks, List.nil_append]
    _ = unblanked text := by
        rw [unblanked, unblanked, trimStart, ← List.filter_append,
          List.takeWhile_append_dropWhile, unblanked]

theorem unblanked_eq_self {text : List Char} (h : ∀ c ∈ text, isBlank c = false) :
    unblanked text = text :=
  List.filter_eq_self.2 fun c hc => by simp [h c hc]

theorem unblanked_reverse (text : List Char) : unblanked text.reverse = (unblanked text).reverse :=
  List.filter_reverse

end Text

namespace JvmType

/-- A type that some source text names. -/
def IsSource (t : JvmType) : Prop :=
  ∃ text, JvmType.ofSourceName text = .ok t

/-! ## Names without brackets -/

variable {name : String} {t : JvmType}

/-- **A plain name names a type that is called by it**, and no array. -/
theorem ofPlainName_eq_ok (h : ofPlainName name = .ok t) :
    t.sourceName = name ∧ ∀ element, t ≠ .array element := by
  unfold ofPlainName at h
  split at h
  · next p hp =>
    cases h
    have hkeyword : p.keyword = name := by simpa using List.find?_some hp
    exact ⟨hkeyword, fun _ heq => by cases heq⟩
  · split at h
    · next hvoid =>
      cases h
      exact ⟨hvoid.symm, fun _ heq => by cases heq⟩
    · split at h
      · cases h
        exact ⟨rfl, fun _ heq => by cases heq⟩
      · cases h

/-- **What is in a plain name**: no blanks and no brackets, but something. -/
theorem ofPlainName_chars (h : ofPlainName name = .ok t) :
    name.toList ≠ [] ∧ ∀ c ∈ name.toList, Text.isBlank c = false ∧ c ≠ ']' := by
  have hkeywords : ∀ p ∈ Primitive.all, p.keyword.toList ≠ [] ∧
      ∀ c ∈ p.keyword.toList, Text.isBlank c = false ∧ c ≠ ']' := by
    simp [Primitive.all, Primitive.keyword, Text.isBlank]
  have hword : "void".toList ≠ [] ∧ ∀ c ∈ "void".toList, Text.isBlank c = false ∧ c ≠ ']' := by
    simp [Text.isBlank]
  unfold ofPlainName at h
  split at h
  · next p hp =>
    obtain rfl : p.keyword = name := by simpa using List.find?_some hp
    exact hkeywords p (List.mem_of_find?_eq_some hp)
  · split at h
    · next hvoid => exact hvoid ▸ hword
    · split at h
      · next hbinary =>
        refine ⟨fun hnil => ?_, fun c hc => ?_⟩
        · obtain rfl : name = "" := String.toList_eq_nil_iff.1 hnil
          cases hbinary
        · rcases Name.isIdentifierPart_of_mem hbinary hc with rfl | hpart
          · decide
          · refine ⟨Text.isBlank_eq_false_of_isIdentifierPart hpart, ?_⟩
            rintro rfl
            exact absurd hpart (by decide)
      · cases h

/-! ## Types -/

/-- **A type that is spelled out in source**: a plain name, or an array of anything but `void`. -/
inductive Spelled : JvmType → Prop
  | plain {name : String} {t : JvmType} (h : ofPlainName name = .ok t) : Spelled t
  | array {element : JvmType} (hvoid : element ≠ .void) (h : Spelled element) :
      Spelled (.array element)

theorem spelled_ofReversed {text : List Char} (h : ofReversed text = .ok t) : t.Spelled := by
  fun_induction ofReversed text generalizing t with
  | case1 => cases h
  | case2 => cases h
  | case3 => cases h
  | case4 _ _ _ element hvoid helement ih =>
    cases h
    exact .array hvoid (ih helement)
  | case5 => exact .plain h

theorem Spelled.isReadable (h : t.Spelled) : t.isReadable := by
  induction h with
  | plain h => exact isReadable_ofPlainName h
  | array hvoid _ ih => exact Bool.and_eq_true_iff.2 ⟨decide_eq_true hvoid, ih⟩

/-- **The types that source texts name can be read back.** -/
theorem isReadable_ofSourceName {text : String} (h : ofSourceName text = .ok t) : t.isReadable :=
  (spelled_ofReversed h).isReadable

/-- A plain name is read as one. -/
theorem ofReversed_of_plain (h : ofPlainName name = .ok t) :
    ofReversed name.toList.reverse = .ok t := by
  obtain ⟨hne, hchars⟩ := ofPlainName_chars h
  have htrim : Text.trimStart name.toList.reverse = name.toList.reverse :=
    Text.trimStart_eq_self fun c hc => (hchars c (List.mem_reverse.1 hc)).1
  rw [ofReversed.eq_def]
  split
  · next hnil => exact absurd (List.reverse_eq_nil_iff.1 (htrim.symm.trans hnil)) hne
  · next rest hbracket =>
    have hmem : ']' ∈ name.toList := by
      rw [← List.mem_reverse, ← htrim, hbracket]
      exact List.mem_cons_self
    exact absurd rfl (hchars ']' hmem).2
  · rw [htrim, List.reverse_reverse, String.ofList_toList, h]

theorem ofReversed_array {text : List Char} {element : JvmType} (hvoid : element ≠ .void)
    (h : ofReversed text = .ok element) :
    ofReversed (']' :: '[' :: text) = .ok (.array element) := by
  have htrim : Text.trimStart (']' :: '[' :: text) = ']' :: '[' :: text := rfl
  rw [ofReversed.eq_def]
  split
  · next hnil => cases htrim.symm.trans hnil
  · next rest hrest =>
    cases htrim.symm.trans hrest
    rw [h]
    split
    · next heq => cases heq
    · next heq => exact absurd (Except.ok.inj heq) hvoid
    · next heq => rw [Except.ok.inj heq]
  · next hother => exact absurd htrim (hother text)

/-- **What a type is called names it.** -/
theorem Spelled.ofReversed_sourceName (h : t.Spelled) :
    ofReversed t.sourceName.toList.reverse = .ok t := by
  induction h with
  | plain h =>
    rw [(ofPlainName_eq_ok h).1]
    exact ofReversed_of_plain h
  | array hvoid h ih =>
    rw [sourceName, String.toList_append, List.reverse_append]
    exact ofReversed_array hvoid ih

theorem Spelled.chars (h : t.Spelled) : ∀ c ∈ t.sourceName.toList, Text.isBlank c = false := by
  have hbrackets : ∀ c ∈ "[]".toList, Text.isBlank c = false := by simp [Text.isBlank]
  induction h with
  | plain h =>
    rw [(ofPlainName_eq_ok h).1]
    exact fun c hc => ((ofPlainName_chars h).2 c hc).1
  | array hvoid h ih =>
    intro c hc
    rw [sourceName, String.toList_append] at hc
    rcases List.mem_append.1 hc with hc | hc
    · exact ih c hc
    · exact hbrackets c hc

/-- **A type that some source text names is named by what it is called.** -/
theorem IsSource.ofSourceName_sourceName (h : t.IsSource) : ofSourceName t.sourceName = .ok t := by
  obtain ⟨text, htext⟩ := h
  have hspelled := spelled_ofReversed htext
  rw [ofSourceName, Text.trimStart_eq_self hspelled.chars]
  exact hspelled.ofReversed_sourceName

/-- A type that some source text names is read back from its descriptor. -/
theorem IsSource.isReadable (h : t.IsSource) : t.isReadable := by
  obtain ⟨text, htext⟩ := h
  exact isReadable_ofSourceName htext

/-! ## What a text names -/

/-- **The type and the elements it is made of**, level by level. -/
def parts : JvmType → List JvmType
  | array element => array element :: element.parts
  | t => [t]

/-- The words that name no class. -/
def keywords : List String :=
  "void" :: Primitive.all.map Primitive.keyword

/-- A plain name of a class is a binary name, and no keyword. -/
theorem isBinary_of_ofPlainName {class' : String} (h : ofPlainName name = .ok (.object class')) :
    Name.isBinary class' ∧ class' ∉ keywords := by
  obtain rfl : class' = name := (ofPlainName_eq_ok h).1
  unfold ofPlainName at h
  split at h
  · cases h
  · next hprimitive =>
    split at h
    · cases h
    · next hvoid =>
      split at h
      · next hbinary =>
        refine ⟨hbinary, fun hkeyword => ?_⟩
        rcases List.mem_cons.1 hkeyword with hword | hword
        · exact hvoid hword
        · obtain ⟨p, hp, hname⟩ := List.mem_map.1 hword
          exact absurd (decide_eq_true hname) (List.find?_eq_none.1 hprimitive p hp)
      · cases h

/-- **What is spelled out has parts that are**: no array of `void`, and classes by their names. -/
theorem Spelled.of_mem_parts {u : JvmType} (h : t.Spelled) (hu : u ∈ t.parts) : u.Spelled := by
  induction h with
  | @plain name t h =>
    have hparts : t.parts = [t] := by
      cases t with
      | array element => exact absurd rfl ((ofPlainName_eq_ok h).2 element)
      | _ => rfl
    obtain rfl := List.mem_singleton.1 (hparts ▸ hu)
    exact .plain h
  | array hvoid h ih =>
    rcases List.mem_cons.1 hu with rfl | hu
    · exact .array hvoid h
    · exact ih hu

theorem not_spelled_array_void : ¬ (array void).Spelled := by
  intro h
  cases h with
  | plain h => exact (ofPlainName_eq_ok h).2 void rfl
  | array hvoid _ => exact hvoid rfl

theorem Spelled.isBinary {class' : String} (h : (object class').Spelled) :
    Name.isBinary class' ∧ class' ∉ keywords := by
  cases h with
  | plain h => exact isBinary_of_ofPlainName h

/-- **A type is called what the text says**, without its blanks. -/
theorem sourceName_ofReversed {text : List Char} (h : ofReversed text = .ok t) :
    t.sourceName.toList = (Text.unblanked text).reverse := by
  fun_induction ofReversed text generalizing t with
  | case1 => cases h
  | case2 => cases h
  | case3 => cases h
  | case4 text rest htrim element hvoid helement ih =>
    cases h
    rw [← Text.unblanked_trimStart, htrim, sourceName, String.toList_append, ih helement]
    simp [Text.unblanked, Text.isBlank]
  | case5 text =>
    have hname := ofPlainName_eq_ok h
    have hchars := ofPlainName_chars h
    rw [String.toList_ofList] at hchars
    rw [hname.1, String.toList_ofList, ← Text.unblanked_trimStart,
      Text.unblanked_eq_self fun c hc => (hchars.2 c (List.mem_reverse.2 hc)).1]

theorem sourceName_ofSourceName {text : String} (h : ofSourceName text = .ok t) :
    t.sourceName.toList = Text.unblanked text.toList := by
  rw [sourceName_ofReversed h, Text.unblanked_reverse, List.reverse_reverse,
    Text.unblanked_trimStart]

/-- **What a source text names.** The type is called what the text says without its blanks, and
that names it again. No array of `void` is in it, and each class in it has a binary name that is no
keyword. It is read back from its descriptor, and no other type that a text names has the same
descriptor, nor is any called the same. -/
theorem named_exactly {text : String} (h : ofSourceName text = .ok t) :
    t.sourceName = String.ofList (text.toList.filter (!Text.isBlank ·)) ∧
      ofSourceName t.sourceName = .ok t ∧
      array void ∉ t.parts ∧
      (∀ class', object class' ∈ t.parts → Name.isBinary class' ∧ class' ∉ keywords) ∧
      ofDescriptor t.descriptor = .ok t ∧
      ∀ u, IsSource u → (u.sourceName = t.sourceName ↔ u.descriptor = t.descriptor) := by
  have hsource : t.IsSource := ⟨text, h⟩
  have hspelled : t.Spelled := spelled_ofReversed h
  have hback := ofDescriptor_descriptor (isReadable_ofSourceName h)
  refine ⟨?_, hsource.ofSourceName_sourceName, ?_, ?_, hback, ?_⟩
  · exact String.toList_injective
      ((sourceName_ofSourceName h).trans String.toList_ofList.symm)
  · exact fun hmem => not_spelled_array_void (hspelled.of_mem_parts hmem)
  · exact fun class' hmem => (hspelled.of_mem_parts hmem).isBinary
  · -- both are ways back to the type
    rintro u ⟨text', h'⟩
    constructor
    · intro heq
      have hu := IsSource.ofSourceName_sourceName ⟨text', h'⟩
      rw [heq, hsource.ofSourceName_sourceName] at hu
      rw [Except.ok.inj hu]
    · intro heq
      have hu := ofDescriptor_descriptor (isReadable_ofSourceName h')
      rw [heq, hback] at hu
      rw [Except.ok.inj hu]

/-- Blanks before the name of a class and before the brackets of two levels. -/
theorem named_exactly_levels :
    ofSourceName " a.Point [] []" = .ok (array (array (object "a.Point"))) ∧
      (array (array (object "a.Point"))).sourceName =
        String.ofList (" a.Point [] []".toList.filter (!Text.isBlank ·)) ∧
      ofSourceName "a.Point[][]" = .ok (array (array (object "a.Point"))) ∧
      Name.isBinary "a.Point" ∧ "a.Point" ∉ keywords ∧
      ofDescriptor "[[La/Point;" = .ok (array (array (object "a.Point"))) := by
  have h : ofSourceName " a.Point [] []" = .ok (array (array (object "a.Point"))) := by cbv
  obtain ⟨hname, hagain, -, hclasses, hback, -⟩ := named_exactly h
  have hsource : (array (array (object "a.Point"))).sourceName = "a.Point[][]" := by cbv
  have hdescriptor : (array (array (object "a.Point"))).descriptor = "[[La/Point;" := by cbv
  rw [hsource] at hagain
  rw [hdescriptor] at hback
  obtain ⟨hbinary, hkeyword⟩ := hclasses "a.Point" (by simp [parts])
  exact ⟨h, hname, hagain, hbinary, hkeyword, hback⟩

end JvmType

end ProxyForge
