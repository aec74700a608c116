import ProxyForge.Text.Column
import ProxyForge.Text.Quoted
import ProxyForge.Text.Styled
/-!
# Text without its colours

`uncolor` takes the colour sequences of a terminal out of a text and leaves everything else. What a
palette writes around a text without an escape character is such a sequence, so styled text without
its colours is what the palette that is off renders (`Styled.uncolor_render`). `Uncolors` says this
of a part with anything behind it, which is the form in which parts are put together.
-/

namespace ProxyForge

namespace Text

/-! ## Colour sequences -/

/-- The character that control sequences begin with. -/
def escape : Char := '\x1b'

/-- Between the bracket of a colour sequence and its last letter. -/
def isParameter (c : Char) : Bool :=
  c.isDigit || c = ';'

/-- The length of the colour sequence that characters begin with: the escape character, a bracket,
parameters and the letter `m`. Zero if they begin with none. -/
def sequenceLength : List Char → Nat
  | first :: '[' :: rest =>
    let parameters := rest.takeWhile isParameter
    if first = escape ∧ (rest.drop parameters.length).head? = some 'm' then parameters.length + 3
    else 0
  | _ => 0

/-- The characters that belong to no colour sequence, behind some that are passed over. -/
def uncolorChars : (passed : Nat) → List Char → List Char
  | _, [] => []
  | n + 1, _ :: rest => uncolorChars n rest
  | 0, c :: rest =>
    match sequenceLength (c :: rest) with
    | 0 => c :: uncolorChars 0 rest
    | n + 1 => uncolorChars n rest

/-- **The text without colour sequences.** -/
def uncolor (s : String) : String :=
  String.ofList (uncolorChars 0 s.toList)

/-- **No control sequence begins in the text.** -/
def NoEscape (s : String) : Prop :=
  escape ∉ s.toList

instance (s : String) : Decidable (NoEscape s) :=
  inferInstanceAs (Decidable (escape ∉ s.toList))

section NoEscape

variable {s t : String}

@[simp] theorem noEscape_append : NoEscape (s ++ t) ↔ NoEscape s ∧ NoEscape t := by
  unfold NoEscape
  rw [String.toList_append, List.mem_append, not_or]

theorem noEscape_join {parts : List String} (h : ∀ s ∈ parts, NoEscape s) :
    NoEscape (String.join parts) := by
  unfold NoEscape
  rw [String.toList_join, List.mem_flatMap]
  rintro ⟨s, hs, hmem⟩
  exact h s hs hmem

theorem noEscape_intercalate (hs : NoEscape s) {parts : List String}
    (h : ∀ t ∈ parts, NoEscape t) : NoEscape (s.intercalate parts) := by
  induction parts with
  | nil => exact of_decide_eq_true rfl
  | cons t parts ih =>
    obtain ⟨ht, hparts⟩ := List.forall_mem_cons.1 h
    cases parts with
    | nil => rwa [String.intercalate_singleton]
    | cons t' parts =>
      rw [String.intercalate_cons_cons, noEscape_append, noEscape_append]
      exact ⟨⟨ht, hs⟩, ih hparts⟩

theorem escape_notMem_toDigits {base : Nat} (hbase : 1 < base) (n : Nat) :
    escape ∉ Nat.toDigits base n := by
  have hdigit (k : Nat) : escape ≠ Nat.digitChar k := (Nat.digitChar_ne escape (by decide)).symm
  induction n using Nat.strongRecOn with
  | ind n ih =>
    rw [Nat.toDigits_eq_if hbase]
    split
    · exact mt List.mem_singleton.1 (hdigit n)
    · next hle =>
      have hlt : n / base < n := Nat.div_lt_self (by omega) hbase
      rw [List.mem_append, List.mem_singleton, not_or]
      exact ⟨ih _ hlt, hdigit (n % base)⟩

/-- Numerals have digits only. -/
@[simp] theorem noEscape_nat (n : Nat) : NoEscape n.repr :=
  fun hmem => escape_notMem_toDigits (by decide) n (Nat.toList_repr ▸ hmem)

/-- And a sign. -/
@[simp] theorem noEscape_int (n : Int) : NoEscape n.repr := by
  cases n with
  | ofNat n => exact noEscape_nat n
  | negSucc n => exact noEscape_append.2 ⟨by decide, noEscape_nat n.succ⟩

/-- So have numbers of a fixed width. -/
@[simp] theorem noEscape_uint8 (n : UInt8) : NoEscape (toString n) :=
  noEscape_nat n.toNat

@[simp] theorem noEscape_uint16 (n : UInt16) : NoEscape (toString n) :=
  noEscape_nat n.toNat

@[simp] theorem noEscape_uint32 (n : UInt32) : NoEscape (toString n) :=
  noEscape_nat n.toNat

@[simp] theorem noEscape_int16 (n : Int16) : NoEscape (toString n) :=
  noEscape_int n.toInt

@[simp] theorem noEscape_int32 (n : Int32) : NoEscape (toString n) :=
  noEscape_int n.toInt

@[simp] theorem noEscape_int64 (n : Int64) : NoEscape (toString n) :=
  noEscape_int n.toInt

theorem noEscape_ofList {cs : List Char} : NoEscape (String.ofList cs) ↔ escape ∉ cs := by
  rw [NoEscape, String.toList_ofList]

theorem noEscape_blanks (n : Nat) : NoEscape (String.ofList (List.replicate n ' ')) :=
  noEscape_ofList.2 fun hmem => absurd (List.eq_of_mem_replicate hmem) (by decide)

@[simp] theorem noEscape_padRight (width : Nat) : NoEscape (padRight width s) ↔ NoEscape s := by
  simp [padRight, noEscape_blanks]

@[simp] theorem noEscape_padLeft (width : Nat) : NoEscape (padLeft width s) ↔ NoEscape s := by
  simp [padLeft, noEscape_blanks]

end NoEscape

theorem sequenceLength_of_ne {c : Char} (h : c ≠ escape) (rest : List Char) :
    sequenceLength (c :: rest) = 0 := by
  unfold sequenceLength
  split
  · next heq =>
    obtain ⟨rfl, -⟩ := List.cons.inj heq
    exact if_neg fun hseq => h hseq.1
  · rfl

theorem uncolorChars_append {text : List Char} (h : escape ∉ text) (rest : List Char) :
    uncolorChars 0 (text ++ rest) = text ++ uncolorChars 0 rest := by
  induction text with
  | nil => rfl
  | cons c text ih =>
    obtain ⟨hc, htext⟩ := not_or.1 (mt List.mem_cons.2 h)
    rw [List.cons_append, uncolorChars, sequenceLength_of_ne (Ne.symm hc)]
    dsimp only
    rw [ih htext, List.cons_append]

/-! ## Parts of a text -/

/-- **A part becomes another without its colours**, whatever stands behind it. -/
def Uncolors (colored bare : String) : Prop :=
  ∀ rest, uncolorChars 0 (colored.toList ++ rest) = bare.toList ++ uncolorChars 0 rest

namespace Uncolors

variable {s s' t t' : String}

theorem uncolor_eq (h : Uncolors s t) : uncolor s = t := by
  have hall := h []
  rw [List.append_nil, uncolorChars, List.append_nil] at hall
  rw [uncolor, hall, String.ofList_toList]

theorem append (h : Uncolors s t) (h' : Uncolors s' t') : Uncolors (s ++ s') (t ++ t') := by
  intro rest
  rw [String.toList_append, String.toList_append, List.append_assoc, h, h', List.append_assoc]

/-- What has no escape character has no colours. -/
theorem of_noEscape (h : NoEscape s) : Uncolors s s :=
  uncolorChars_append h

/-- Parts in a row. -/
theorem join {α : Type} {f g : α → String} {xs : List α} (h : ∀ x ∈ xs, Uncolors (f x) (g x)) :
    Uncolors (String.join (xs.map f)) (String.join (xs.map g)) := by
  induction xs with
  | nil => exact fun _ => rfl
  | cons x xs ih =>
    rw [List.map_cons, List.map_cons, String.join_cons, String.join_cons]
    exact (h x List.mem_cons_self).append (ih fun y hy => h y (List.mem_cons_of_mem x hy))

/-- The sequences that switch a colour on or off leave nothing. -/
theorem start (style : Style) : Uncolors (Palette.on.start style) "" := by
  cases style <;> exact fun _ => rfl

theorem reset : Uncolors Palette.on.reset "" :=
  fun _ => rfl

/-- **A painted text without its colours** is the text. -/
theorem paint (style : Style) (h : Uncolors s t) : Uncolors (Palette.on.paint style s) t := by
  have hpaint := ((start style).append h).append reset
  rwa [String.empty_append, String.append_empty] at hpaint

end Uncolors

/-! ## Styled text -/

namespace Styled

/-- **No control sequence begins in a span.** -/
def NoEscapes (t : Styled) : Prop :=
  ∀ span ∈ t, NoEscape span.text

@[simp] theorem noEscapes_nil : NoEscapes [] :=
  List.forall_mem_nil _

@[simp] theorem noEscapes_append {t t' : Styled} :
    NoEscapes (t ++ t') ↔ NoEscapes t ∧ NoEscapes t' :=
  List.forall_mem_append

@[simp] theorem noEscapes_plain {s : String} : NoEscapes (plain s) ↔ NoEscape s :=
  List.forall_mem_singleton

@[simp] theorem noEscapes_styled {style : Style} {s : String} :
    NoEscapes (styled style s) ↔ NoEscape s :=
  List.forall_mem_singleton

theorem noEscapes_flatten {parts : List Styled} (h : ∀ t ∈ parts, NoEscapes t) :
    NoEscapes parts.flatten := by
  intro span hspan
  obtain ⟨t, ht, hmem⟩ := List.mem_flatten.1 hspan
  exact h t ht span hmem

theorem noEscapes_flatMap {α : Type} {f : α → Styled} {xs : List α}
    (h : ∀ x ∈ xs, NoEscapes (f x)) : NoEscapes (xs.flatMap f) :=
  noEscapes_flatten (List.forall_mem_map.2 h)

theorem noEscapes_intercalate {t : Styled} (ht : NoEscapes t) {parts : List Styled}
    (h : ∀ t ∈ parts, NoEscapes t) : NoEscapes (t.intercalate parts) := by
  induction parts with
  | nil => exact noEscapes_nil
  | cons t' parts ih =>
    obtain ⟨ht', hparts⟩ := List.forall_mem_cons.1 h
    cases parts with
    | nil => rwa [List.intercalate_singleton]
    | cons t'' parts =>
      rw [List.intercalate_cons_cons]
      exact noEscapes_append.2 ⟨noEscapes_append.2 ⟨ht', ht⟩, ih hparts⟩

theorem uncolors_renderSpan {span : Span} (h : NoEscape span.text) :
    Uncolors (renderSpan .on span) (renderSpan .off span) := by
  obtain ⟨_ | style, text⟩ := span
  · exact .of_noEscape h
  · exact (Uncolors.of_noEscape h).paint style

/-- **Colour is only decoration.** Without its colours, styled text is what the palette that is off
renders. -/
theorem uncolor_render {t : Styled} (h : NoEscapes t) : uncolor (render .on t) = render .off t :=
  (Uncolors.join fun span hspan => uncolors_renderSpan (h span hspan)).uncolor_eq

end Styled

end Text

end ProxyForge
