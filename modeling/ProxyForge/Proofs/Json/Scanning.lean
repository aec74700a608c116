import Mathlib.Data.List.DropRight
import ProxyForge.Proofs.Json.Strings
/-!
# Values, read from their texts

`ScannedAs text node`: a value is read from a text, with enough fuel, whatever follows. In this form
facts about parts compose to facts about lists and records (`ScannedAs.list`, `ScannedAs.record`),
and space may stand in front (`ScannedAs.spaced`). Twice the length of a text is enough fuel for it:
what a bracket costs, the bracket that closes it pays.
-/

namespace ProxyForge

namespace Json

/-- **A value is read from a text**, and what follows it is left. -/
def ScannedAs (text : List Char) (node : Node) : Prop :=
  ∀ fuel rest, 2 * text.length < fuel → scanNode fuel (text ++ rest) = (node, some rest)

/-- Nothing but space. -/
def IsSpaces (space : List Char) : Prop :=
  ∀ c ∈ space, isSpace c

variable {text space close rest : List Char} {node : Node} {fuel : Nat}

/-! ## Space -/

theorem skipSpace_append (h : IsSpaces space) (rest : List Char) :
    skipSpace (space ++ rest) = skipSpace rest :=
  List.dropWhile_append_of_pos h

theorem skipSpace_of_not {c : Char} (h : isSpace c = false) (rest : List Char) :
    skipSpace (c :: rest) = c :: rest :=
  List.dropWhile_cons_of_neg (by simp [h])

theorem skipSpace_skipSpace (text : List Char) : skipSpace (skipSpace text) = skipSpace text :=
  List.dropWhile_idempotent _ text

theorem scanNode_skipSpace (fuel : Nat) (text : List Char) :
    scanNode fuel (skipSpace text) = scanNode fuel text := by
  cases fuel with
  | zero => rw [scanNode, scanNode]
  | succ fuel => rw [scanNode, scanNode, skipSpace_skipSpace]

theorem scanItems_skipSpace (fuel : Nat) (acc : List Node) (h : IsSpaces space) :
    scanItems fuel acc (space ++ text) = scanItems fuel acc text := by
  cases fuel with
  | zero => rw [scanItems, scanItems]
  | succ fuel => rw [scanItems, scanItems, skipSpace_append h]

theorem scanEntries_skipSpace (fuel : Nat) (acc : List (List Piece × Node)) (h : IsSpaces space) :
    scanEntries fuel acc (space ++ text) = scanEntries fuel acc text := by
  cases fuel with
  | zero => rw [scanEntries, scanEntries]
  | succ fuel => rw [scanEntries, scanEntries, skipSpace_append h]

namespace ScannedAs

/-- **Space may stand in front** of a value. -/
theorem spaced (hspace : IsSpaces space) (h : ScannedAs text node) :
    ScannedAs (space ++ text) node := by
  intro fuel rest hfuel
  rw [List.length_append] at hfuel
  rw [← scanNode_skipSpace, List.append_assoc, skipSpace_append hspace, scanNode_skipSpace]
  exact h fuel rest (by omega)

/-- A value starts with a character that closes nothing, and is read from there. -/
theorem exists_head (h : ScannedAs text node) (hfuel : 2 * text.length < fuel)
    (rest : List Char) :
    ∃ c more, skipSpace (text ++ rest) = c :: more ∧ c ≠ ']' ∧
      scanNode fuel (c :: more) = (node, some rest) := by
  have hscan := h fuel rest hfuel
  rw [← scanNode_skipSpace] at hscan
  obtain ⟨fuel, rfl⟩ := Nat.exists_eq_add_one_of_ne_zero (Nat.ne_zero_of_lt hfuel)
  cases hskip : skipSpace (text ++ rest) with
  | nil =>
    rw [hskip, scanNode] at hscan
    cases congrArg Prod.snd hscan
  | cons c more =>
    rw [hskip] at hscan
    refine ⟨c, more, rfl, ?_, hscan⟩
    rintro rfl
    rw [scanNode, skipSpace_of_not rfl] at hscan
    cases congrArg Prod.snd hscan

theorem length_pos (h : ScannedAs text node) : 0 < text.length := by
  obtain ⟨c, more, hskip, -⟩ := h.exists_head (Nat.lt_succ_self _) []
  rw [List.append_nil] at hskip
  refine List.length_pos_iff.2 fun hnil => ?_
  rw [hnil] at hskip
  cases hskip

/-! ## Values without brackets -/

theorem null : ScannedAs ['n', 'u', 'l', 'l'] .null := by
  intro fuel rest hfuel
  obtain ⟨fuel, rfl⟩ := Nat.exists_eq_add_one_of_ne_zero (Nat.ne_zero_of_lt hfuel)
  simp [scanNode, skipSpace, isSpace, scanWord]

theorem bool (b : Bool) : ScannedAs (Json.bool b).chars (.bool b) := by
  intro fuel rest hfuel
  obtain ⟨fuel, rfl⟩ := Nat.exists_eq_add_one_of_ne_zero (Nat.ne_zero_of_lt hfuel)
  cases b <;> simp [chars, scanNode, skipSpace, isSpace, scanWord]

theorem str (s : String) : ScannedAs (quoted s) (.text (pieces s)) := by
  intro fuel rest hfuel
  obtain ⟨fuel, rfl⟩ := Nat.exists_eq_add_one_of_ne_zero (Nat.ne_zero_of_lt hfuel)
  rw [quoted_append, scanNode, skipSpace_of_not rfl]
  simp [scanText_quoted]

/-! ## Lists -/

/-- The item behind the opening bracket. -/
theorem scanItems_first (h : ScannedAs text node) (hfuel : 2 * text.length < fuel)
    (rest : List Char) : scanItems (fuel + 1) [] (text ++ rest) = scanItems fuel [node] rest := by
  obtain ⟨c, more, hskip, hc, hscan⟩ := h.exists_head hfuel rest
  rw [scanItems, hskip]
  simp [hscan]

/-- An item behind a comma. -/
theorem scanItems_comma {acc : List Node} (hacc : acc ≠ []) (h : ScannedAs text node)
    (hfuel : 2 * text.length < fuel) (rest : List Char) :
    scanItems (fuel + 1) acc (',' :: (text ++ rest)) = scanItems fuel (node :: acc) rest := by
  obtain ⟨c, more, hskip, hc, hscan⟩ := h.exists_head hfuel rest
  rw [scanItems, skipSpace_of_not rfl]
  simp [hacc, hskip, hc, hscan]

theorem scanItems_close (hclose : IsSpaces close) (fuel : Nat) (acc : List Node)
    (rest : List Char) :
    scanItems (fuel + 1) acc (close ++ ']' :: rest) = (acc.reverse, .closed, some rest) := by
  rw [scanItems_skipSpace _ _ hclose, scanItems, skipSpace_of_not rfl]
  rfl

/-- **The items behind the first one.** -/
theorem scanItems_behind (hclose : IsSpaces close) {items : List (List Char × Node)}
    (h : ∀ p ∈ items, ScannedAs p.1 p.2) {acc : List Node} (hacc : acc ≠ [])
    (hfuel : 2 * (items.flatMap (fun p => ',' :: p.1) ++ close ++ [']']).length < fuel)
    (rest : List Char) :
    scanItems fuel acc (items.flatMap (fun p => ',' :: p.1) ++ (close ++ ']' :: rest)) =
      (acc.reverse ++ items.map Prod.snd, .closed, some rest) := by
  -- each item is one step, which its comma pays for
  induction items generalizing acc fuel with
  | nil =>
    obtain ⟨fuel, rfl⟩ := Nat.exists_eq_add_one_of_ne_zero (Nat.ne_zero_of_lt hfuel)
    rw [List.flatMap_nil, List.nil_append, scanItems_close hclose, List.map_nil, List.append_nil]
  | cons p items ih =>
    obtain ⟨fuel, rfl⟩ := Nat.exists_eq_add_one_of_ne_zero (Nat.ne_zero_of_lt hfuel)
    obtain ⟨hp, hitems⟩ := List.forall_mem_cons.1 h
    simp only [List.flatMap_cons, List.length_append, List.length_cons] at hfuel ih
    rw [List.flatMap_cons, List.cons_append, List.cons_append, List.append_assoc,
      scanItems_comma hacc hp (by omega), ih hitems (List.cons_ne_nil _ _) (by omega),
      List.reverse_cons, List.append_assoc, List.singleton_append, List.map_cons]

/-- What is behind an opening bracket is read as items. -/
theorem of_scanItems (text : List Char) {items : List Node}
    (h : ∀ fuel rest, 2 * (text ++ [']']).length < fuel →
      scanItems fuel [] (text ++ ']' :: rest) = (items, .closed, some rest)) :
    ScannedAs ('[' :: (text ++ [']'])) (.list items .closed) := by
  intro fuel rest hfuel
  obtain ⟨fuel, rfl⟩ := Nat.exists_eq_add_one_of_ne_zero (Nat.ne_zero_of_lt hfuel)
  rw [List.length_cons] at hfuel
  have hitems := h fuel rest (by omega)
  rw [List.cons_append, List.append_assoc, List.singleton_append, scanNode, skipSpace_of_not rfl]
  simp [hitems]

/-- **A list is read from its items**, with commas between them and space in front of the closing
bracket. -/
theorem list (hclose : IsSpaces close) {first : List Char × Node}
    {items : List (List Char × Node)} (hfirst : ScannedAs first.1 first.2)
    (h : ∀ p ∈ items, ScannedAs p.1 p.2) :
    ScannedAs ('[' :: (first.1 ++ (items.flatMap (fun p => ',' :: p.1) ++ close) ++ [']']))
      (.list (first.2 :: items.map Prod.snd) .closed) := by
  refine of_scanItems _ fun fuel rest hfuel => ?_
  obtain ⟨fuel, rfl⟩ := Nat.exists_eq_add_one_of_ne_zero (Nat.ne_zero_of_lt hfuel)
  have hpos := hfirst.length_pos
  simp only [List.length_append, List.length_singleton] at hfuel
  rw [List.append_assoc, List.append_assoc, scanItems_first hfirst (by omega),
    scanItems_behind hclose h (List.cons_ne_nil _ _)
      (by simp only [List.length_append, List.length_singleton]; omega)]
  rfl

theorem emptyList : ScannedAs ['[', ']'] (.list [] .closed) := by
  refine of_scanItems [] fun fuel rest hfuel => ?_
  obtain ⟨fuel, rfl⟩ := Nat.exists_eq_add_one_of_ne_zero (Nat.ne_zero_of_lt hfuel)
  exact scanItems_close (List.forall_mem_nil _) fuel [] rest

/-! ## Records -/

variable {key : String}

/-- The entry behind the opening brace. -/
theorem scanEntries_first (hspace : IsSpaces space) (h : ScannedAs text node)
    (hfuel : 2 * text.length < fuel) (rest : List Char) :
    scanEntries (fuel + 1) [] (space ++ (quoted key ++ ':' :: (text ++ rest))) =
      scanEntries fuel [(pieces key, node)] rest := by
  rw [scanEntries_skipSpace _ _ hspace, quoted_append, scanEntries, skipSpace_of_not rfl]
  simp [scanText_quoted, skipSpace_of_not, isSpace, h fuel rest hfuel]

/-- An entry behind a comma. -/
theorem scanEntries_comma {acc : List (List Piece × Node)} (hacc : acc ≠ [])
    (hspace : IsSpaces space) (h : ScannedAs text node) (hfuel : 2 * text.length < fuel)
    (rest : List Char) :
    scanEntries (fuel + 1) acc (',' :: (space ++ (quoted key ++ ':' :: (text ++ rest)))) =
      scanEntries fuel ((pieces key, node) :: acc) rest := by
  rw [quoted_append, scanEntries, skipSpace_of_not rfl]
  simp [hacc, skipSpace_append hspace, scanText_quoted, skipSpace_of_not, isSpace,
    h fuel rest hfuel]

theorem scanEntries_close (hclose : IsSpaces close) (fuel : Nat)
    (acc : List (List Piece × Node)) (rest : List Char) :
    scanEntries (fuel + 1) acc (close ++ '\x7d' :: rest) =
      (acc.reverse, .closed, some rest) := by
  rw [scanEntries_skipSpace _ _ hclose, scanEntries, skipSpace_of_not rfl]
  rfl

/-- The text of an entry, with space in front of it. -/
def entryText (space : List Char) (e : String × List Char × Node) : List Char :=
  space ++ (quoted e.1 ++ ':' :: e.2.1)

/-- The node of an entry. -/
def entryNode (e : String × List Char × Node) : List Piece × Node :=
  (pieces e.1, e.2.2)

/-- **The entries behind the first one.** -/
theorem scanEntries_behind (hspace : IsSpaces space) (hclose : IsSpaces close)
    {entries : List (String × List Char × Node)} (h : ∀ e ∈ entries, ScannedAs e.2.1 e.2.2)
    {acc : List (List Piece × Node)} (hacc : acc ≠ [])
    (hfuel : 2 * (entries.flatMap (fun e => ',' :: entryText space e) ++ close ++
      ['\x7d']).length < fuel) (rest : List Char) :
    scanEntries fuel acc
        (entries.flatMap (fun e => ',' :: entryText space e) ++ (close ++ '\x7d' :: rest)) =
      (acc.reverse ++ entries.map entryNode, .closed, some rest) := by
  induction entries generalizing acc fuel with
  | nil =>
    obtain ⟨fuel, rfl⟩ := Nat.exists_eq_add_one_of_ne_zero (Nat.ne_zero_of_lt hfuel)
    rw [List.flatMap_nil, List.nil_append, scanEntries_close hclose, List.map_nil,
      List.append_nil]
  | cons e entries ih =>
    obtain ⟨fuel, rfl⟩ := Nat.exists_eq_add_one_of_ne_zero (Nat.ne_zero_of_lt hfuel)
    obtain ⟨he, hentries⟩ := List.forall_mem_cons.1 h
    simp only [List.flatMap_cons, List.length_append, List.length_cons, entryText] at hfuel ih
    simp only [List.flatMap_cons, List.cons_append, List.append_assoc, entryText]
    rw [scanEntries_comma hacc hspace he (by omega), ih hentries (List.cons_ne_nil _ _) (by omega),
      List.reverse_cons, List.append_assoc, List.singleton_append, List.map_cons]
    rfl

/-- What is behind an opening brace is read as entries. -/
theorem of_scanEntries (text : List Char) {entries : List (List Piece × Node)}
    (h : ∀ fuel rest, 2 * (text ++ ['\x7d']).length < fuel →
      scanEntries fuel [] (text ++ '\x7d' :: rest) = (entries, .closed, some rest)) :
    ScannedAs ('\x7b' :: (text ++ ['\x7d'])) (.record entries .closed) := by
  intro fuel rest hfuel
  obtain ⟨fuel, rfl⟩ := Nat.exists_eq_add_one_of_ne_zero (Nat.ne_zero_of_lt hfuel)
  rw [List.length_cons] at hfuel
  have hentries := h fuel rest (by omega)
  rw [List.cons_append, List.append_assoc, List.singleton_append, scanNode, skipSpace_of_not rfl]
  simp [hentries]

/-- **A record is read from its entries**, with commas between them and space in front of each and
of the closing brace. -/
theorem record (hspace : IsSpaces space) (hclose : IsSpaces close)
    {first : String × List Char × Node} {entries : List (String × List Char × Node)}
    (hfirst : ScannedAs first.2.1 first.2.2) (h : ∀ e ∈ entries, ScannedAs e.2.1 e.2.2) :
    ScannedAs ('\x7b' :: (entryText space first ++
        (entries.flatMap (fun e => ',' :: entryText space e) ++ close) ++ ['\x7d']))
      (.record (entryNode first :: entries.map entryNode) .closed) := by
  refine of_scanEntries _ fun fuel rest hfuel => ?_
  obtain ⟨fuel, rfl⟩ := Nat.exists_eq_add_one_of_ne_zero (Nat.ne_zero_of_lt hfuel)
  simp only [List.length_append, List.length_cons, List.length_nil, entryText] at hfuel
  have hstart : entryText space first ++
      (entries.flatMap (fun e => ',' :: entryText space e) ++ close) ++ '\x7d' :: rest =
      space ++ (quoted first.1 ++ ':' :: (first.2.1 ++
        (entries.flatMap (fun e => ',' :: entryText space e) ++ (close ++ '\x7d' :: rest)))) := by
    simp [entryText]
  rw [hstart, scanEntries_first hspace hfirst (by omega),
    scanEntries_behind hspace hclose h (List.cons_ne_nil _ _) (by
      simp only [List.length_append, List.length_cons, List.length_nil, entryText]
      omega)]
  rfl

theorem emptyRecord : ScannedAs ['\x7b', '\x7d'] (.record [] .closed) := by
  refine of_scanEntries [] fun fuel rest hfuel => ?_
  obtain ⟨fuel, rfl⟩ := Nat.exists_eq_add_one_of_ne_zero (Nat.ne_zero_of_lt hfuel)
  exact scanEntries_close (List.forall_mem_nil _) fuel [] rest

end ScannedAs

end Json

end ProxyForge
