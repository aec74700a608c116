import Mathlib.Data.List.Basic
import ProxyForge.Proofs.Json.Scanning
/-!
# Values, laid out and read

A value may be laid out on one line or on several: the difference is space (`Layout`). A value
without numbers is read back from each of its layouts (`Layout.read_chars`), as the node that
shows it (`Shows`). `compact` and `pretty` are two of them.
-/

namespace ProxyForge

namespace Json

/-- **The node that a value is read as**, for values without numbers. -/
inductive Shows : Json → Node → Prop
  | null : Shows .null .null
  | bool (b : Bool) : Shows (.bool b) (.bool b)
  | str (s : String) : Shows (.str s) (.text (pieces s))
  | list {items : List (Json × Node)} (h : ∀ p ∈ items, Shows p.1 p.2) :
      Shows (.arr (items.map Prod.fst)) (.list (items.map Prod.snd) .closed)
  | record {entries : List (String × Json × Node)} (h : ∀ e ∈ entries, Shows e.2.1 e.2.2) :
      Shows (.obj (entries.map fun e => (e.1, e.2.1)))
        (.record (entries.map fun e => (pieces e.1, e.2.2)) .closed)

namespace Shows

variable {α : Type}

/-- What shows the elements of a list shows the list. -/
theorem list_map {xs : List α} {write : α → Json} {node : α → Node}
    (h : ∀ x ∈ xs, Shows (write x) (node x)) :
    Shows (.arr (xs.map write)) (.list (xs.map node) .closed) := by
  have hpairs : ∀ p ∈ xs.map fun x => (write x, node x), Shows p.1 p.2 := List.forall_mem_map.2 h
  have hlist := Shows.list hpairs
  rwa [List.map_map, List.map_map] at hlist

end Shows

/-- **How values are laid out**: space in front of each item and closing bracket, by its level, and
behind each colon. Brackets with nothing between them stand together. -/
structure Layout where
  newline : Nat → List Char
  gap : List Char
  isSpaces_newline : ∀ level, IsSpaces (newline level)
  isSpaces_gap : IsSpaces gap

namespace Layout

/-- No space. -/
def oneLine : Layout where
  newline := fun _ => []
  gap := []
  isSpaces_newline := fun _ => List.forall_mem_nil _
  isSpaces_gap := List.forall_mem_nil _

/-- A line for each item, and two spaces for each level. -/
def manyLines : Layout where
  newline := fun level => '\n' :: List.replicate (2 * level) ' '
  gap := [' ']
  isSpaces_newline := fun _ => List.forall_mem_cons.2
    ⟨rfl, fun _ hc => List.eq_of_mem_replicate hc ▸ rfl⟩
  isSpaces_gap := List.forall_mem_singleton.2 rfl

variable (l : Layout)

mutual
/-- The characters of a value whose closing bracket stands at a level. -/
def chars (level : Nat) : Json → List Char
  | arr [] => ['[', ']']
  | obj [] => ['\x7b', '\x7d']
  | arr (item :: rest) =>
    '[' :: (commaSeparated (itemChars (level + 1) (item :: rest)) ++ l.newline level ++ [']'])
  | obj (entry :: rest) =>
    '\x7b' :: (commaSeparated (entryChars (level + 1) (entry :: rest)) ++ l.newline level ++
      ['\x7d'])
  | other => other.chars

/-- The characters of each item. -/
def itemChars (level : Nat) : List Json → List (List Char)
  | [] => []
  | item :: rest => (l.newline level ++ chars level item) :: itemChars level rest

/-- The characters of each entry. -/
def entryChars (level : Nat) : List (String × Json) → List (List Char)
  | [] => []
  | (key, value) :: rest =>
    (l.newline level ++ (quoted key ++ ':' :: (l.gap ++ chars level value))) ::
      entryChars level rest
end

theorem itemChars_eq (level : Nat) (items : List Json) :
    l.itemChars level items = items.map fun item => l.newline level ++ l.chars level item := by
  induction items with
  | nil => rw [itemChars, List.map_nil]
  | cons item items ih => rw [itemChars, ih, List.map_cons]

theorem entryChars_eq (level : Nat) (entries : List (String × Json)) :
    l.entryChars level entries = entries.map fun entry =>
      l.newline level ++ (quoted entry.1 ++ ':' :: (l.gap ++ l.chars level entry.2)) := by
  induction entries with
  | nil => rw [entryChars, List.map_nil]
  | cons entry entries ih => rw [entryChars, ih, List.map_cons]

end Layout

/-! ## The two layouts -/

theorem commaSeparated_cons (piece : List Char) (more : List (List Char)) :
    commaSeparated (piece :: more) = piece ++ more.flatMap fun piece => ',' :: piece := by
  induction more generalizing piece with
  | nil => rw [commaSeparated, List.flatMap_nil, List.append_nil]
  | cons piece' more ih =>
    rw [commaSeparated, ih, List.flatMap_cons, List.cons_append]
    simp

theorem intercalate_eq_commaSeparated (pieces : List (List Char)) :
    [','].intercalate pieces = commaSeparated pieces := by
  induction pieces with
  | nil => rfl
  | cons piece pieces ih =>
    cases pieces with
    | nil => simp [commaSeparated]
    | cons piece' pieces =>
      rw [List.intercalate_cons_cons, ih, commaSeparated_cons, commaSeparated_cons,
        List.flatMap_cons]
      simp

theorem itemChars_eq (items : List Json) : itemChars items = items.map chars := by
  induction items with
  | nil => rw [itemChars, List.map_nil]
  | cons item items ih => rw [itemChars, ih, List.map_cons]

theorem entryChars_eq (entries : List (String × Json)) :
    entryChars entries = entries.map fun entry => quoted entry.1 ++ ':' :: chars entry.2 := by
  induction entries with
  | nil => rw [entryChars, List.map_nil]
  | cons entry entries ih => rw [entryChars, ih, List.map_cons]

theorem prettyItems_eq (level : Nat) (items : List Json) :
    prettyItems level items = items.map fun item => newline level ++ prettyAt level item := by
  induction items with
  | nil => rw [prettyItems, List.map_nil]
  | cons item items ih => rw [prettyItems, ih, List.map_cons]

theorem prettyEntries_eq (level : Nat) (entries : List (String × Json)) :
    prettyEntries level entries = entries.map fun entry =>
      newline level ++ String.ofList (quoted entry.1) ++ ": " ++ prettyAt level entry.2 := by
  induction entries with
  | nil => rw [prettyEntries, List.map_nil]
  | cons entry entries ih => rw [prettyEntries, ih, List.map_cons]

variable {j : Json} {node : Node}

/-- **What is written on one line** is laid out without space. -/
theorem chars_oneLine (h : Shows j node) (level : Nat) : Layout.oneLine.chars level j = j.chars := by
  induction h generalizing level with
  | null | bool | str => rw [Layout.chars] <;> intros <;> simp_all
  | @list items _ ih =>
    have hpieces : Layout.oneLine.itemChars (level + 1) (items.map Prod.fst) =
        itemChars (items.map Prod.fst) := by
      rw [Layout.itemChars_eq, itemChars_eq, List.map_map, List.map_map]
      exact List.map_congr_left fun p hp => ih p hp (level + 1)
    cases items with
    | nil => rfl
    | cons p items =>
      rw [List.map_cons] at hpieces ⊢
      rw [Layout.chars, hpieces, chars]
      simp [Layout.oneLine]
  | @record entries _ ih =>
    have hpieces : Layout.oneLine.entryChars (level + 1) (entries.map fun e => (e.1, e.2.1)) =
        entryChars (entries.map fun e => (e.1, e.2.1)) := by
      rw [Layout.entryChars_eq, entryChars_eq, List.map_map, List.map_map]
      refine List.map_congr_left fun e he => ?_
      simp [Layout.oneLine, ← ih e he (level + 1)]
    cases entries with
    | nil => rfl
    | cons e entries =>
      rw [List.map_cons] at hpieces ⊢
      rw [Layout.chars, hpieces, chars]
      simp [Layout.oneLine]

theorem toList_newline (level : Nat) :
    (newline level).toList = Layout.manyLines.newline level := by
  simp [newline, Layout.manyLines]

/-- **What is written on several lines** is laid out with two spaces for each level. -/
theorem toList_prettyAt (h : Shows j node) (level : Nat) :
    (prettyAt level j).toList = Layout.manyLines.chars level j := by
  induction h generalizing level with
  | null | bool | str =>
    rw [Layout.chars, prettyAt, compact, String.toList_ofList] <;> intros <;> simp_all
  | @list items _ ih =>
    have hpieces : (prettyItems (level + 1) (items.map Prod.fst)).map String.toList =
        Layout.manyLines.itemChars (level + 1) (items.map Prod.fst) := by
      rw [Layout.itemChars_eq, prettyItems_eq, List.map_map, List.map_map, List.map_map]
      refine List.map_congr_left fun p hp => ?_
      simp [toList_newline, ih p hp (level + 1)]
    cases items with
    | nil =>
      rw [List.map_nil, prettyAt, Layout.chars]
      rfl
    | cons p items =>
      rw [List.map_cons] at hpieces ⊢
      rw [Layout.chars, ← hpieces, prettyAt]
      · simp [intercalate_eq_commaSeparated, toList_newline]
      · exact List.cons_ne_nil _ _
  | @record entries _ ih =>
    have hpieces :
        (prettyEntries (level + 1) (entries.map fun e => (e.1, e.2.1))).map String.toList =
          Layout.manyLines.entryChars (level + 1) (entries.map fun e => (e.1, e.2.1)) := by
      rw [Layout.entryChars_eq, prettyEntries_eq, List.map_map, List.map_map, List.map_map]
      refine List.map_congr_left fun e he => ?_
      simp [toList_newline, ih e he (level + 1)]
      rfl
    cases entries with
    | nil =>
      rw [List.map_nil, prettyAt, Layout.chars]
      rfl
    | cons e entries =>
      rw [List.map_cons] at hpieces ⊢
      rw [Layout.chars, ← hpieces, prettyAt]
      · simp [intercalate_eq_commaSeparated, toList_newline]
      · exact List.cons_ne_nil _ _

/-! ## Reading -/

namespace Layout

variable (l : Layout)

/-- **A value is read from its layout** at any level. -/
theorem scannedAs_chars (h : Shows j node) (level : Nat) : ScannedAs (l.chars level j) node := by
  induction h generalizing level with
  | null =>
    rw [chars] <;> intros <;> first | exact ScannedAs.null | simp_all
  | bool b =>
    rw [chars] <;> intros <;> first | exact ScannedAs.bool b | simp_all
  | str s =>
    rw [chars] <;> intros <;> first | exact ScannedAs.str s | simp_all
  | @list items _ ih =>
    cases items with
    | nil =>
      rw [List.map_nil, chars]
      exact ScannedAs.emptyList
    | cons p items =>
      let item (q : Json × Node) : List Char × Node :=
        (l.newline (level + 1) ++ l.chars (level + 1) q.1, q.2)
      have hitem : ∀ q ∈ p :: items, ScannedAs (item q).1 (item q).2 := fun q hq =>
        (ih q hq (level + 1)).spaced (l.isSpaces_newline (level + 1))
      obtain ⟨hfirst, hitems⟩ := List.forall_mem_cons.1 hitem
      have hlist := ScannedAs.list (l.isSpaces_newline level) hfirst
        (List.forall_mem_map.2 hitems)
      rw [List.map_cons, chars, itemChars_eq, List.map_cons, commaSeparated_cons]
      simpa [item, List.flatMap_map, Function.comp_def] using hlist
  | @record entries _ ih =>
    cases entries with
    | nil =>
      rw [List.map_nil, chars]
      exact ScannedAs.emptyRecord
    | cons e entries =>
      -- only the gap is in front of a value, the new line is in front of its key
      let entry (e : String × Json × Node) : String × List Char × Node :=
        (e.1, l.gap ++ l.chars (level + 1) e.2.1, e.2.2)
      have hentry : ∀ e' ∈ e :: entries, ScannedAs (entry e').2.1 (entry e').2.2 := fun e' he' =>
        (ih e' he' (level + 1)).spaced l.isSpaces_gap
      obtain ⟨hfirst, hentries⟩ := List.forall_mem_cons.1 hentry
      have hrecord := ScannedAs.record (l.isSpaces_newline (level + 1)) (l.isSpaces_newline level)
        hfirst (List.forall_mem_map.2 hentries)
      rw [List.map_cons, chars, entryChars_eq, List.map_cons, commaSeparated_cons]
      simpa [entry, List.flatMap_map, Function.comp_def, ScannedAs.entryText,
        ScannedAs.entryNode] using hrecord

/-- **A value that is laid out is read back**, and nothing is behind it. -/
theorem read_chars (h : Shows j node) (level : Nat) :
    Document.read (String.ofList (l.chars level j)) = ⟨node, false⟩ := by
  have hscan := l.scannedAs_chars h level (2 * (l.chars level j).length + 1) [] (Nat.lt_succ_self _)
  rw [List.append_nil] at hscan
  simp [Document.read, hscan, skipSpace]

end Layout

/-- **What is read from a text** is what a reader makes of the node. -/
theorem readText_compact {α : Type} {root : Node → Read α} {x : α} (h : Shows j node)
    (hroot : root node = .ok x) : readText root j.compact = .ok x := by
  rw [compact, ← chars_oneLine h 0, readText, Layout.oneLine.read_chars h]
  simp [hroot, bind, Except.bind, pure, Except.pure]

theorem readText_pretty {α : Type} {root : Node → Read α} {x : α} (h : Shows j node)
    (hroot : root node = .ok x) : readText root j.pretty = .ok x := by
  have htext : j.pretty = String.ofList (Layout.manyLines.chars 0 j) := by
    rw [pretty, ← toList_prettyAt h, String.ofList_toList]
  rw [htext, readText, Layout.manyLines.read_chars h]
  simp [hroot, bind, Except.bind, pure, Except.pure]

end Json

end ProxyForge
