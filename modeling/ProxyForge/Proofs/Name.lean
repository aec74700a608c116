import Mathlib.Data.List.TakeWhile
import ProxyForge.Name
/-!
# Binary names and their packages

A binary name is identifiers with dots between them, and what stands before the last dot is one
again (`Name.isBinary_package`). Behind a package, an identifier makes a binary name in it
(`Name.isBinary_qualify`, `Name.package_qualify`), and an identifier with a number behind it is an
identifier (`Name.isIdentifier_append_number`).
-/

namespace ProxyForge

namespace Name

/-! ## Pieces -/

variable {separator : Char} {chars front last : List Char}

theorem splitAt_ne_nil (separator : Char) (chars : List Char) : splitAt separator chars ≠ [] := by
  cases chars with
  | nil => exact List.cons_ne_nil _ _
  | cons c rest =>
    rw [splitAt]
    split
    · exact List.cons_ne_nil _ _
    · split <;> exact List.cons_ne_nil _ _

/-- **A text without a separator is one piece.** -/
theorem splitAt_of_notMem (h : separator ∉ chars) : splitAt separator chars = [chars] := by
  induction chars with
  | nil => rfl
  | cons c rest ih =>
    obtain ⟨hc, hrest⟩ := not_or.1 (mt List.mem_cons.2 h)
    rw [splitAt, if_neg (Ne.symm hc), ih hrest]

/-- **A separator ends a piece.** -/
theorem splitAt_append (separator : Char) (front last : List Char) :
    splitAt separator (front ++ separator :: last) =
      splitAt separator front ++ splitAt separator last := by
  induction front with
  | nil => exact if_pos rfl
  | cons c front ih =>
    rw [List.cons_append, splitAt, splitAt, ih]
    by_cases hc : c = separator
    · rw [if_pos hc, if_pos hc, List.cons_append]
    · rw [if_neg hc, if_neg hc]
      cases hsplit : splitAt separator front with
      | nil => exact absurd hsplit (splitAt_ne_nil separator front)
      | cons piece pieces => rfl

/-- What is no separator is in a piece. -/
theorem mem_splitAt {c : Char} (h : c ∈ chars) :
    c = separator ∨ ∃ piece ∈ splitAt separator chars, c ∈ piece := by
  induction chars with
  | nil => cases h
  | cons d rest ih =>
    rw [splitAt]
    split
    · next hd =>
      rcases List.mem_cons.1 h with rfl | hrest
      · exact .inl hd
      · refine (ih hrest).imp_right ?_
        rintro ⟨piece, hpiece, hc⟩
        exact ⟨piece, List.mem_cons_of_mem _ hpiece, hc⟩
    · split
      · next hnil => exact absurd hnil (splitAt_ne_nil separator rest)
      · next piece pieces hsplit =>
        rw [hsplit] at ih
        rcases List.mem_cons.1 h with rfl | hrest
        · exact .inr ⟨c :: piece, List.mem_cons_self, List.mem_cons_self⟩
        · refine (ih hrest).imp_right ?_
          rintro ⟨other, hother, hc⟩
          rcases List.mem_cons.1 hother with rfl | hother
          · exact ⟨d :: other, List.mem_cons_self, List.mem_cons_of_mem d hc⟩
          · exact ⟨other, List.mem_cons_of_mem _ hother, hc⟩

/-! ## Identifiers -/

/-- No dot is in an identifier. -/
theorem dot_notMem_of_isIdentifier (h : isIdentifier chars) : '.' ∉ chars := by
  have hstart : isIdentifierStart '.' = false := by decide
  have hpart : isIdentifierPart '.' = false := by decide
  cases chars with
  | nil => exact List.not_mem_nil
  | cons c rest =>
    obtain ⟨hc, hrest⟩ := Bool.and_eq_true_iff.1 h
    intro hdot
    rcases List.mem_cons.1 hdot with rfl | hdot
    · rw [hstart] at hc
      cases hc
    · have := List.all_eq_true.1 hrest '.' hdot
      rw [hpart] at this
      cases this

theorem isIdentifierPart_of_isIdentifierStart {c : Char} (h : isIdentifierStart c) :
    isIdentifierPart c := by
  simp only [isIdentifierStart, isIdentifierPart, Bool.or_eq_true] at h ⊢
  rcases h with (hletter | hline) | hdollar
  · exact .inl (.inl (.inl hletter))
  · exact .inl (.inr hline)
  · exact .inr hdollar

/-- A digit may stand in an identifier. -/
theorem isIdentifierPart_of_isDigit {c : Char} (h : c.isDigit) : isIdentifierPart c := by
  obtain ⟨hlow, hhigh⟩ := Bool.and_eq_true_iff.1 h
  have hdigit : Text.isAsciiDigit c :=
    Bool.and_eq_true_iff.2 ⟨decide_eq_true (of_decide_eq_true hlow), hhigh⟩
  have hascii : c.toNat < 0x80 :=
    Nat.lt_of_le_of_lt (UInt32.le_iff_toNat_le.1 (of_decide_eq_true hhigh)) (by decide)
  have hnumeral : Text.isNumeral c := by rwa [Text.isNumeral, if_pos hascii]
  simp [isIdentifierPart, hnumeral]

/-- **A number may stand behind an identifier.** -/
theorem isIdentifier_append_number {stem : String} (h : isIdentifier stem.toList)
    (number : UInt64) : isIdentifier (stem ++ toString number).toList := by
  have hdigits : (toString number).toList.all isIdentifierPart := by
    refine List.all_eq_true.2 fun c hc => isIdentifierPart_of_isDigit ?_
    have htext : (toString number).toList = Nat.toDigits 10 number.toNat := String.toList_ofList
    rw [htext] at hc
    exact Nat.isDigit_of_mem_toDigits (by decide) (by decide) hc
  rw [String.toList_append]
  cases hstem : stem.toList with
  | nil => rw [hstem] at h; cases h
  | cons c rest =>
    rw [hstem] at h
    obtain ⟨hc, hrest⟩ := Bool.and_eq_true_iff.1 h
    rw [List.cons_append, isIdentifier, List.all_append, hc, hrest, hdigits]
    rfl

/-! ## Binary names -/

theorem isBinary_iff {name : String} :
    isBinary name ↔ ∀ piece ∈ splitAt '.' name.toList, isIdentifier piece := by
  rw [isBinary, Bool.and_eq_true_iff, List.all_eq_true]
  refine and_iff_right_of_imp fun h => decide_eq_true ?_
  rintro rfl
  exact absurd (h [] List.mem_cons_self) Bool.false_ne_true

/-- **Any character of a binary name** is a dot or may stand in an identifier. -/
theorem isIdentifierPart_of_mem {name : String} (h : isBinary name) {c : Char}
    (hc : c ∈ name.toList) : c = '.' ∨ isIdentifierPart c := by
  refine (mem_splitAt hc).imp_right ?_
  rintro ⟨piece, hpiece, hmem⟩
  have hidentifier := isBinary_iff.1 h piece hpiece
  cases piece with
  | nil => cases hmem
  | cons d rest =>
    obtain ⟨hd, hrest⟩ := Bool.and_eq_true_iff.1 hidentifier
    rcases List.mem_cons.1 hmem with rfl | hmem
    · exact isIdentifierPart_of_isIdentifierStart hd
    · exact List.all_eq_true.1 hrest c hmem

/-- The last dot of a text. -/
theorem exists_last_dot (h : '.' ∈ chars) :
    ∃ front last, chars = front ++ '.' :: last ∧ '.' ∉ last := by
  obtain ⟨before, after, hchars, hbefore⟩ :=
    List.eq_append_cons_of_mem (List.mem_reverse.2 h)
  refine ⟨after.reverse, before.reverse, ?_, mt List.mem_reverse.1 hbefore⟩
  rw [← List.reverse_reverse chars, hchars]
  simp

/-- **The package stands before the last dot.** -/
theorem package_ofList (h : '.' ∉ last) :
    package (String.ofList (front ++ '.' :: last)) = String.ofList front := by
  have hdrop : (last.reverse ++ '.' :: front.reverse).dropWhile (· ≠ '.') =
      '.' :: front.reverse := by
    rw [List.dropWhile_append_of_pos fun c hc => ?_]
    · rfl
    · exact decide_eq_true fun hdot => h (List.mem_reverse.1 (hdot ▸ hc))
  rw [package, String.toList_ofList, List.reverse_append, List.reverse_cons, List.append_assoc,
    List.singleton_append, hdrop, List.drop_one, List.tail_cons, List.reverse_reverse]

/-- A name without a dot is in the unnamed package. -/
theorem package_of_notMem {name : String} (h : '.' ∉ name.toList) : package name = "" := by
  have hdrop : name.toList.reverse.dropWhile (· ≠ '.') = [] :=
    List.dropWhile_eq_nil_iff.2 fun c hc =>
      decide_eq_true fun hdot => h (List.mem_reverse.1 (hdot ▸ hc))
  rw [package, hdrop]
  rfl

/-- **A simple name in a package is in that package.** -/
theorem package_qualify (package' : String) {simple' : String} (h : '.' ∉ simple'.toList) :
    package (qualify package' simple') = package' := by
  unfold qualify
  split
  · next hnone => rw [package_of_notMem h, hnone]
  · have htext : package' ++ "." ++ simple' =
        String.ofList (package'.toList ++ '.' :: simple'.toList) := by
      rw [← String.toList_inj]
      simp
    rw [htext, package_ofList h, String.ofList_toList]

/-- **A package and a simple name are read off the name.** -/
theorem qualify_inj_iff {package₁ package₂ simple₁ simple₂ : String} (h₁ : '.' ∉ simple₁.toList)
    (h₂ : '.' ∉ simple₂.toList) : qualify package₁ simple₁ = qualify package₂ simple₂ ↔
      package₁ = package₂ ∧ simple₁ = simple₂ := by
  constructor
  · intro heq
    have hpackage : package₁ = package₂ := by
      rw [← package_qualify package₁ h₁, heq, package_qualify package₂ h₂]
    subst hpackage
    refine ⟨rfl, ?_⟩
    unfold qualify at heq
    split at heq
    · exact heq
    · exact (String.append_right_inj _).1 heq
  · rintro ⟨rfl, rfl⟩
    rfl

/-- **An identifier in a package is a binary name**, if the package is one or unnamed. -/
theorem isBinary_qualify {package' simple' : String} (hpackage : package' = "" ∨ isBinary package')
    (h : isIdentifier simple'.toList) : isBinary (qualify package' simple') := by
  have hlast := splitAt_of_notMem (dot_notMem_of_isIdentifier h)
  unfold qualify
  split
  · rw [isBinary_iff, hlast]
    exact List.forall_mem_singleton.2 h
  · next hnone =>
    have hpieces := isBinary_iff.1 (hpackage.resolve_left hnone)
    have htext : (package' ++ "." ++ simple').toList =
        package'.toList ++ '.' :: simple'.toList := by simp
    rw [isBinary_iff, htext, splitAt_append, hlast]
    intro piece hpiece
    rcases List.mem_append.1 hpiece with hfront | hfinal
    · exact hpieces piece hfront
    · exact List.mem_singleton.1 hfinal ▸ h

/-- **The package of a binary name** is a binary name, or unnamed. -/
theorem isBinary_package {name : String} (h : isBinary name) :
    package name = "" ∨ isBinary (package name) := by
  by_cases hdot : '.' ∈ name.toList
  · obtain ⟨front, last, htext, hlast⟩ := exists_last_dot hdot
    have hname : name = String.ofList (front ++ '.' :: last) := by
      rw [← htext, String.ofList_toList]
    have hpieces := isBinary_iff.1 h
    rw [htext, splitAt_append] at hpieces
    rw [hname, package_ofList hlast, isBinary_iff, String.toList_ofList]
    exact .inr fun piece hpiece => hpieces piece (List.mem_append_left _ hpiece)
  · exact .inl (package_of_notMem hdot)

end Name

end ProxyForge
