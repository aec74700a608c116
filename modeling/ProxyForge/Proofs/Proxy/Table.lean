import ProxyForge.Proofs.Styled
import ProxyForge.Proxy.Report
/-!
# The table of a plan without its colours

Every cell of the table but one is filled to its width before it is painted. The id is painted
first, and the nine characters of its colour are counted as if they were shown: of the eleven
characters of its column two are left (`Plan.uncolors_table`). So without its colours the table is
the one that has none exactly if each id is as wide as the column (`Plan.uncolor_table_iff`).
-/

namespace ProxyForge

namespace Proxy

open Text

/-! ## The width of an id -/

/-- **An id is as wide as its column** if it has a sign and ten digits. -/
theorem le_length_id_iff (id : Int32) : 11 ≤ (toString id).length ↔ id.toInt ≤ -1000000000 := by
  change 11 ≤ (Int.repr id.toInt).length ↔ _
  have hmax : id.toInt < 2 ^ 31 := Int32.toInt_lt id
  cases hid : id.toInt with
  | ofNat n =>
    have hdigits : (Nat.toDigits 10 n).length ≤ 10 ↔ n < 10 ^ 10 :=
      Nat.length_toDigits_le_iff (by decide) (by decide)
    rw [hid, Int.ofNat_eq_natCast] at hmax
    rw [Int.repr, ← String.length_toList, Nat.toList_repr, Int.ofNat_eq_natCast]
    omega
  | negSucc n =>
    have hdigits : (Nat.toDigits 10 n.succ).length ≤ 9 ↔ n.succ < 10 ^ 9 :=
      Nat.length_toDigits_le_iff (by decide) (by decide)
    have hsign : ("-" : String).length = 1 := rfl
    rw [Int.repr, String.length_append, ← String.length_toList (s := n.succ.repr),
      Nat.toList_repr, hsign, Int.negSucc_eq]
    omega

/-! ## One line -/

namespace Planned

variable {m : Planned} {keyWidth : Nat}

/-- The line of a member in no colour, its id filled to a width. -/
def bareLine (idWidth keyWidth : Nat) (m : Planned) : String :=
  "m" ++ padRight 4 (toString m.slot) ++ " " ++ padLeft idWidth (toString m.id) ++ "  " ++
    padRight 9 m.origin.word ++ "  " ++ padRight keyWidth m.key ++ "  " ++ m.declaring ++ "\n"

theorem noEscape_word (origin : Origin) : NoEscape origin.word := by
  cases origin <;> decide

/-- The characters of its colour count for the width of a painted id. -/
theorem padLeft_paint (id : Int32) :
    padLeft 11 (Palette.on.paint .green (toString id)) =
      String.ofList (List.replicate (2 - (toString id).length) ' ') ++
        Palette.on.paint .green (toString id) := by
  have hlength : (Palette.on.paint .green (toString id)).length = (toString id).length + 9 := by
    change ("\x1b[32m" ++ toString id ++ "\x1b[0m").length = _
    rw [String.length_append, String.length_append]
    change 5 + (toString id).length + 4 = _
    omega
  have hleft : 11 - ((toString id).length + 9) = 2 - (toString id).length := by omega
  rw [padLeft, hlength, hleft]

theorem uncolors_id (id : Int32) :
    Uncolors (padLeft 11 (Palette.on.paint .green (toString id))) (padLeft 2 (toString id)) := by
  rw [padLeft_paint]
  exact (Uncolors.of_noEscape (noEscape_blanks _)).append
    ((Uncolors.of_noEscape (noEscape_int32 id)).paint .green)

/-- **A coloured line without its colours**: of the column of the id two characters are left. -/
theorem uncolors_line (hkey : NoEscape m.key) (hdeclaring : NoEscape m.declaring) :
    Uncolors (m.line .on keyWidth) (m.bareLine 2 keyWidth) := by
  have bare {s : String} (h : NoEscape s) : Uncolors s s := .of_noEscape h
  have hslot := (bare (s := "m" ++ padRight 4 (toString m.slot)) (by simp +decide)).paint .dim
  have horigin := bare ((noEscape_padRight 9).2 (noEscape_word m.origin))
  have hkey' := (bare ((noEscape_padRight keyWidth).2 hkey)).paint .blue
  have hgap : Uncolors "  " "  " := bare (by decide)
  exact ((((((((hslot.append (bare (by decide))).append (uncolors_id m.id)).append hgap).append
    horigin).append hgap).append hkey').append hgap).append ((bare hdeclaring).paint .dim)).append
    (bare (by decide))

/-- A wider column makes no line shorter. -/
theorem length_bareLine_le (keyWidth : Nat) (m : Planned) :
    (m.bareLine 2 keyWidth).length ≤ (m.bareLine 11 keyWidth).length := by
  simp only [bareLine, padLeft, String.length_append, String.length_ofList, List.length_replicate]
  omega

/-- Lines with an id that is as wide as the wider column are the same. -/
theorem bareLine_eq_iff :
    m.bareLine 2 keyWidth = m.bareLine 11 keyWidth ↔ 11 ≤ (toString m.id).length := by
  constructor
  · intro h
    have hlength := congrArg String.length h
    simp only [bareLine, padLeft, String.length_append, String.length_ofList,
      List.length_replicate] at hlength
    omega
  · intro h
    have htwo : 2 - (toString m.id).length = 0 := by omega
    have heleven : 11 - (toString m.id).length = 0 := by omega
    rw [bareLine, bareLine, padLeft, padLeft, htwo, heleven]

end Planned

/-! ## All lines -/

section Rows

variable {α : Type} {f g : α → String} {xs : List α}

theorem length_join_le (hle : ∀ x ∈ xs, (f x).length ≤ (g x).length) :
    (String.join (xs.map f)).length ≤ (String.join (xs.map g)).length := by
  induction xs with
  | nil => exact Nat.le_refl _
  | cons x xs ih =>
    obtain ⟨hx, hxs⟩ := List.forall_mem_cons.1 hle
    simp only [List.map_cons, String.join_cons, String.length_append]
    exact Nat.add_le_add hx (ih hxs)

/-- **Rows of texts are the same** only if the texts are, where no text of the one row is longer than
the one at its place in the other: what one text lacks no other can make up for. -/
theorem join_eq_iff (hle : ∀ x ∈ xs, (f x).length ≤ (g x).length) :
    String.join (xs.map f) = String.join (xs.map g) ↔ ∀ x ∈ xs, f x = g x := by
  refine ⟨fun h => ?_, fun h => congrArg String.join (List.map_congr_left h)⟩
  induction xs with
  | nil => exact List.forall_mem_nil _
  | cons x xs ih =>
    obtain ⟨hx, hxs⟩ := List.forall_mem_cons.1 hle
    rw [List.map_cons, List.map_cons, String.join_cons, String.join_cons] at h
    have hrest := length_join_le hxs
    have hsum := congrArg String.length h
    rw [String.length_append, String.length_append] at hsum
    have hchars := congrArg String.toList h
    rw [String.toList_append, String.toList_append] at hchars
    obtain ⟨hfirst, hmore⟩ := List.append_inj hchars (by
      rw [String.length_toList, String.length_toList]
      omega)
    exact List.forall_mem_cons.2 ⟨String.toList_inj.1 hfirst, ih hxs (String.toList_inj.1 hmore)⟩

end Rows

namespace Plan

variable {p : Plan}

/-- **No control sequence begins in a plan**: not in a key, and not in the name of a type. -/
structure NoEscapes (p : Plan) : Prop where
  key : ∀ m ∈ p.members, NoEscape m.key
  declaring : ∀ m ∈ p.members, NoEscape m.declaring
  base : ∀ c, p.base = some c → NoEscape c.name

/-- The table in no colour, with the ids filled to a width. -/
def bareTable (idWidth : Nat) (p : Plan) : String :=
  p.baseLine .off ++ String.join (p.members.map (Planned.bareLine idWidth p.keyWidth))

theorem uncolors_baseLine (h : p.NoEscapes) : Uncolors (p.baseLine .on) (p.baseLine .off) := by
  unfold baseLine
  split
  · next base hbase =>
    exact ((Uncolors.of_noEscape (by decide)).append
      ((Uncolors.of_noEscape (h.base base hbase)).paint .blue)).append
      (Uncolors.of_noEscape (by decide))
  · exact .of_noEscape (by decide)

/-- **The coloured table without its colours.** -/
theorem uncolors_table (h : p.NoEscapes) : Uncolors (p.table .on) (p.bareTable 2) :=
  (uncolors_baseLine h).append
    (Uncolors.join fun m hm => Planned.uncolors_line (h.key m hm) (h.declaring m hm))

/-- **What colour does to the table.** Without its colours the coloured table has ids that are filled
to two characters, while in the plain one they are filled to eleven; all else is the same. So the
two are the same exactly if each id has a sign and ten digits. -/
theorem uncolor_table_iff (h : p.NoEscapes) :
    uncolor (p.table .on) = p.bareTable 2 ∧ p.table .off = p.bareTable 11 ∧
    (uncolor (p.table .on) = p.table .off ↔ ∀ m ∈ p.members, m.id.toInt ≤ -1000000000) := by
  have hon : uncolor (p.table .on) = p.bareTable 2 := (uncolors_table h).uncolor_eq
  have hoff : p.table .off = p.bareTable 11 := rfl
  refine ⟨hon, hoff, ?_⟩
  rw [hon, hoff, bareTable, bareTable, String.append_right_inj,
    join_eq_iff fun m _ => m.length_bareLine_le p.keyWidth]
  exact forall₂_congr fun m _ => Planned.bareLine_eq_iff.trans (le_length_id_iff m.id)

/-- A member with an id that fills its column, and one with a short id. -/
def wideAndShort : Plan where
  members :=
    [⟨plainUniversal ⟨"hashCode", [], .primitive .int⟩, -1000000000, 0⟩,
      ⟨plainUniversal ⟨"toString", [], .object "java.lang.String"⟩, 78660516, 1⟩]
  base := none

/-- The short id is enough for the two tables to differ; without it they agree. -/
theorem uncolor_table_wideAndShort :
    wideAndShort.NoEscapes ∧ uncolor (wideAndShort.table .on) ≠ wideAndShort.table .off ∧
    uncolor (Plan.table .on ⟨wideAndShort.members.take 1, none⟩) =
      Plan.table .off ⟨wideAndShort.members.take 1, none⟩ := by
  have hboth : wideAndShort.NoEscapes :=
    ⟨by decide +kernel, by decide +kernel, fun c hc => by cases hc⟩
  have hone : NoEscapes ⟨wideAndShort.members.take 1, none⟩ :=
    ⟨by decide +kernel, by decide +kernel, fun c hc => by cases hc⟩
  refine ⟨hboth, fun heq => ?_, (uncolor_table_iff hone).2.2.2 (by decide)⟩
  exact absurd ((uncolor_table_iff hboth).2.2.1 heq) (by decide)

end Plan

end Proxy

end ProxyForge
