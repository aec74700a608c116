import Mathlib.Tactic.SplitIfs
import ProxyForge.Json.Decode
/-!
# Strings, written and read

A string is read from what it is written as (`scanText_escaped`). What is written for a character is
one piece for a reader: the character itself, or the code unit of a control character that has no
letter. The pieces of a string are its text again (`usedText_pieces`), since no control character
is half of a pair.
-/

namespace ProxyForge

namespace Json

/-- The control characters that are written as a letter. -/
def lettered : List Char := ['\x08', '\x0c', '\n', '\r', '\t']

/-- **The piece that a character is read as.** -/
def pieceOf (c : Char) : Piece :=
  if c.toNat < 0x20 ∧ c ∉ lettered then .unit (UInt16.ofNat c.toNat) else .char c

/-- The pieces of a string. -/
def pieces (s : String) : List Piece :=
  s.toList.map pieceOf

variable {acc : List Piece} {rest : List Char} {c : Char}

/-- A character behind a backslash. -/
theorem scanText_letter {letter : Char} (h : escaped letter = some c) (acc : List Piece)
    (rest : List Char) :
    scanText acc ('\\' :: letter :: rest) = scanText (.char c :: acc) rest := by
  have hne : letter ≠ 'u' := by
    rintro rfl
    cases h
  rw [scanText.eq_def]
  simp [h, hne]

theorem scanText_unit {a b c d : Char} {u : UInt16} (h : hexUnit a b c d = some u)
    (acc : List Piece) (rest : List Char) :
    scanText acc ('\\' :: 'u' :: a :: b :: c :: d :: rest) = scanText (.unit u :: acc) rest := by
  rw [scanText, h]

theorem scanText_plain (hquote : c ≠ '"') (hslash : c ≠ '\\') (hc : ¬ c.toNat < 0x20)
    (acc : List Piece) (rest : List Char) :
    scanText acc (c :: rest) = scanText (.char c :: acc) rest := by
  rw [scanText.eq_def]
  simp [hslash, hc]

/-- Two hexadecimal digits say a number below thirty-two. -/
theorem hexUnit_digitChar : ∀ n < 0x20,
    hexUnit '0' '0' (Nat.digitChar (n / 16)) (Nat.digitChar (n % 16)) = some (UInt16.ofNat n) := by
  decide

/-- **What is written for a character** is read as its piece. -/
theorem scanText_escapeChar (c : Char) (acc : List Piece) (rest : List Char) :
    scanText acc (escapeChar c ++ rest) = scanText (pieceOf c :: acc) rest := by
  have hletter : ∀ letter : Char, escaped letter = some c → pieceOf c = .char c →
      scanText acc ('\\' :: letter :: rest) = scanText (pieceOf c :: acc) rest :=
    fun letter hescaped hpiece => by rw [hpiece, scanText_letter hescaped]
  unfold escapeChar
  split_ifs with hquote hslash hback hform hline hreturn htab hcontrol
  · exact hletter '"' (by rw [hquote]; rfl) (by rw [hquote]; rfl)
  · exact hletter '\\' (by rw [hslash]; rfl) (by rw [hslash]; rfl)
  · exact hletter 'b' (by rw [hback]; rfl) (by rw [hback]; rfl)
  · exact hletter 'f' (by rw [hform]; rfl) (by rw [hform]; rfl)
  · exact hletter 'n' (by rw [hline]; rfl) (by rw [hline]; rfl)
  · exact hletter 'r' (by rw [hreturn]; rfl) (by rw [hreturn]; rfl)
  · exact hletter 't' (by rw [htab]; rfl) (by rw [htab]; rfl)
  · have hpiece : pieceOf c = .unit (UInt16.ofNat c.toNat) := by
      simp [pieceOf, lettered, hcontrol, hback, hform, hline, hreturn, htab]
    rw [hpiece]
    exact scanText_unit (hexUnit_digitChar c.toNat hcontrol) acc rest
  · have hpiece : pieceOf c = .char c := if_neg fun h => hcontrol h.1
    rw [hpiece]
    exact scanText_plain hquote hslash hcontrol acc rest

theorem quoted_append (s : String) (rest : List Char) :
    quoted s ++ rest = '"' :: (s.toList.flatMap escapeChar ++ '"' :: rest) := by
  simp [quoted]

/-- **A string is read from what it is written as**, up to its closing quote. -/
theorem scanText_quoted (s : String) (rest : List Char) :
    scanText [] (s.toList.flatMap escapeChar ++ '"' :: rest) = (pieces s, .ok rest) := by
  have honto : ∀ (text : List Char) (acc : List Piece),
      scanText acc (text.flatMap escapeChar ++ '"' :: rest) =
        (acc.reverse ++ text.map pieceOf, .ok rest) := by
    intro text
    induction text with
    | nil =>
      intro acc
      rw [List.flatMap_nil, List.nil_append, List.map_nil, List.append_nil, scanText]
    | cons c text ih =>
      intro acc
      rw [List.flatMap_cons, List.append_assoc, scanText_escapeChar, ih, List.map_cons,
        List.reverse_cons, List.append_assoc, List.singleton_append]
  exact honto s.toList []

/-- A piece is read as its character: a control character is no half of a pair. -/
theorem textOf_pieceOf (c : Char) (acc : List Char) (rest : List Piece) :
    textOf acc (pieceOf c :: rest) = textOf (c :: acc) rest := by
  unfold pieceOf
  split_ifs with h
  · have hunit : (UInt16.ofNat c.toNat).toNat = c.toNat := by
      rw [UInt16.toNat_ofNat']
      omega
    have hsmall : UInt16.ofNat c.toNat < 0xd800 := by
      rw [UInt16.lt_iff_toNat_lt, hunit]
      exact Nat.lt_trans h.1 (by decide)
    have hlow : (UInt16.ofNat c.toNat < 0xd800 || 0xdfff < UInt16.ofNat c.toNat) = true := by
      simp [hsmall]
    rw [textOf.eq_def]
    dsimp only
    rw [if_pos hlow, hunit, Char.ofNat_toNat]
  · rw [textOf]

/-- **The pieces of a string are its text.** -/
theorem textOf_pieces (s : String) : textOf [] (pieces s) = some s := by
  have honto : ∀ (text acc : List Char),
      textOf acc (text.map pieceOf) = some (String.ofList (acc.reverse ++ text)) := by
    intro text
    induction text with
    | nil =>
      intro acc
      rw [List.map_nil, List.append_nil, textOf]
    | cons c text ih =>
      intro acc
      rw [List.map_cons, textOf_pieceOf, ih, List.reverse_cons, List.append_assoc,
        List.singleton_append]
  rw [pieces, honto, List.reverse_nil, List.nil_append, String.ofList_toList]

theorem usedText_pieces (s : String) : usedText (pieces s) = .ok s := by
  rw [usedText, textOf_pieces]

end Json

end ProxyForge
