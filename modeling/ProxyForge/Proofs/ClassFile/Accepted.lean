import ProxyForge.Proofs.ClassFile.RoundTrip
/-!
# Texts that can be read

The length of a text is read from two bytes. So whatever bytes a class file is read from, no text in
its pool is longer than two bytes can say (`ClassFile.textsFit_of_ofBytes`): a text that is longer
is read back from no bytes at all.
-/

namespace ProxyForge

open Outcome

/-! ## Texts -/

namespace ModifiedUtf8

variable {acc us : List UInt16} {u : UInt16} {bytes : Bytes}

/-- A byte that is a unit of its own is written as one byte. -/
theorem length_encodeUnit_single : ∀ n < 256, UInt8.ofNat n &&& 0x80 = 0 → UInt8.ofNat n ≠ 0 →
    (encodeUnit (UInt8.ofNat n).toUInt16).length = 1 := by
  decide +kernel

/-- A unit of eleven bits is written as two bytes. -/
theorem length_encodeUnit_pair (b b₁ : UInt8) :
    (encodeUnit ((b &&& 0x1f).toUInt16 <<< 6 ||| continuationBits b₁)).length ≤ 2 := by
  have hfirst : (b &&& 0x1f).toNat < 2 ^ 5 := Nat.and_lt_two_pow _ (by decide)
  have hsecond : (b₁ &&& 0x3f).toNat < 2 ^ 6 := Nat.and_lt_two_pow _ (by decide)
  have hsmall : (b &&& 0x1f).toUInt16 <<< 6 ||| continuationBits b₁ ≤ 0x7ff := by
    rw [UInt16.le_iff_toNat_le, UInt16.toNat_or, UInt16.toNat_shiftLeft, continuationBits,
      UInt8.toNat_toUInt16, UInt8.toNat_toUInt16, Nat.shiftLeft_eq]
    refine Nat.le_of_lt_succ (Nat.or_lt_two_pow (n := 11) ?_ (Nat.lt_trans hsecond (by decide)))
    change (b &&& 0x1f).toNat * 2 ^ 6 % 2 ^ 16 < 2 ^ 11
    omega
  unfold encodeUnit
  split
  · exact Nat.le_of_ble_eq_true rfl
  · exact Nat.le_of_ble_eq_true rfl

/-- **Code units take no more bytes than they were read from.** -/
theorem length_le_of_decodeUnitsOnto (h : decodeUnitsOnto acc bytes = some us) :
    (us.flatMap encodeUnit).length ≤ (acc.flatMap encodeUnit).length + bytes.length := by
  have hstep : ∀ {u : UInt16} {acc : List UInt16} (front : Bytes) {rest : Bytes},
      (encodeUnit u).length ≤ front.length →
      (us.flatMap encodeUnit).length ≤ ((u :: acc).flatMap encodeUnit).length + rest.length →
      (us.flatMap encodeUnit).length ≤ (acc.flatMap encodeUnit).length +
        (front ++ rest).length := by
    intro u acc front rest hu hrest
    rw [List.flatMap_cons, List.length_append] at hrest
    rw [List.length_append]
    omega
  fun_induction decodeUnitsOnto acc bytes
  case case1 =>
    cases h
    rw [List.length_flatMap, List.length_flatMap, List.map_reverse, List.sum_reverse]
    exact Nat.le_add_right _ _
  case case2 b rest hb ih =>
    have hbits := Bool.and_eq_true_iff.1 hb
    have hone := length_encodeUnit_single b.toNat b.toNat_lt
    rw [UInt8.ofNat_toNat] at hone
    have hlength := hone (of_decide_eq_true hbits.1) (of_decide_eq_true hbits.2)
    exact hstep [b] (Nat.le_of_eq hlength) (ih h)
  case case3 b _ _ b₁ rest _ ih => exact hstep [b, b₁] (length_encodeUnit_pair _ _) (ih h)
  case case6 b _ _ _ b₁ b₂ rest _ ih => exact hstep [b, b₁, b₂] (length_encodeUnit_le _) (ih h)
  all_goals cases h

theorem toNat_ofNat_of_isValidChar {n : Nat} (h : n.isValidChar) : (Char.ofNat n).toNat = n := by
  unfold Char.ofNat
  rw [dif_pos h]
  rfl

/-- The code units of a pair. -/
theorem unitsOfChar_charOfPair {high low : UInt16} (hhigh : isHighSurrogate high = true)
    (hlow : isLowSurrogate low = true) : unitsOfChar (charOfPair high low) = [high, low] := by
  simp only [isHighSurrogate, isLowSurrogate, Bool.and_eq_true, decide_eq_true_eq,
    UInt16.le_iff_toNat_le] at hhigh hlow
  obtain ⟨hhigh₁, hhigh₂⟩ : 0xd800 ≤ high.toNat ∧ high.toNat ≤ 0xdbff := hhigh
  obtain ⟨hlow₁, hlow₂⟩ : 0xdc00 ≤ low.toNat ∧ low.toNat ≤ 0xdfff := hlow
  have hnat : (charOfPair high low).toNat =
      0x10000 + (high.toNat - 0xd800) * 0x400 + (low.toNat - 0xdc00) :=
    toNat_ofNat_of_isValidChar (.inr ⟨by omega, by omega⟩)
  unfold unitsOfChar
  rw [hnat]
  dsimp only
  rw [if_neg (by omega)]
  have hfirst : 0xd800 + (0x10000 + (high.toNat - 0xd800) * 0x400 + (low.toNat - 0xdc00) -
      0x10000) / 0x400 = high.toNat := by omega
  have hsecond : 0xdc00 + (0x10000 + (high.toNat - 0xd800) * 0x400 + (low.toNat - 0xdc00) -
      0x10000) % 0x400 = low.toNat := by omega
  rw [hfirst, hsecond, UInt16.ofNat_toNat, UInt16.ofNat_toNat]

/-- The code unit of a character that is no pair. -/
theorem unitsOfChar_ofNat {u : UInt16} (hhigh : isHighSurrogate u = false)
    (hlow : isLowSurrogate u = false) : unitsOfChar (Char.ofNat u.toNat) = [u] := by
  have hu := u.toNat_lt
  have hplain : ¬(0xd800 ≤ u.toNat ∧ u.toNat ≤ 0xdbff) ∧
      ¬(0xdc00 ≤ u.toNat ∧ u.toNat ≤ 0xdfff) := by
    rw [← UInt16.ofNat_toNat (x := u), isHighSurrogate_ofNat hu] at hhigh
    rw [← UInt16.ofNat_toNat (x := u), isLowSurrogate_ofNat hu] at hlow
    exact ⟨of_decide_eq_false hhigh, of_decide_eq_false hlow⟩
  unfold unitsOfChar
  rw [toNat_ofNat_of_isValidChar (by unfold Nat.isValidChar; omega)]
  dsimp only
  rw [if_pos hu, UInt16.ofNat_toNat]

/-- **The code units of a text** are those that it was read from. -/
theorem units_of_charsOnto {acc text : List Char} (h : charsOnto acc us = some text) :
    units text = units acc.reverse ++ us := by
  have hone : ∀ (acc : List Char) (c : Char),
      units (c :: acc).reverse = units acc.reverse ++ unitsOfChar c := fun acc c => by
    simp [units]
  fun_induction charsOnto acc us
  case case1 =>
    cases h
    exact (List.append_nil _).symm
  case case2 hhigh low rest hlow ih =>
    rw [ih h, hone, unitsOfChar_charOfPair hhigh hlow, List.append_assoc]
    rfl
  case case6 hhigh hlow ih =>
    rw [ih h, hone, unitsOfChar_ofNat (eq_false_of_ne_true hhigh) (eq_false_of_ne_true hlow),
      List.append_assoc]
    rfl
  all_goals cases h

/-- **A text takes no more bytes than it was read from.** -/
theorem length_le_of_decode {text : String} (h : decode bytes = some text) :
    (encode text).length ≤ bytes.length := by
  obtain ⟨us, hus, hrest⟩ := Option.bind_eq_some_iff.1 h
  obtain ⟨chars, hchars, hresult⟩ := Option.bind_eq_some_iff.1 hrest
  cases hresult
  have hunits : units chars = us := units_of_charsOnto hchars
  have hbytes := length_le_of_decodeUnitsOnto hus
  rw [← hunits] at hbytes
  rw [encode, String.toList_ofList]
  simpa using hbytes

end ModifiedUtf8

/-! ## Class files -/

variable {c c' : Cursor}

/-- No more bytes are taken than were asked for. -/
theorem Decoder.length_of_take {n : Nat} {bytes : Bytes} (h : take n c = .ok bytes c') :
    bytes.length ≤ n := by
  unfold take at h
  dsimp only at h
  split at h
  · cases h
  · cases h
    exact List.length_take_le _ _

namespace Constant

variable {k : Constant}

theorem fits_of_decodeIndex {make : UInt16 → Constant}
    (h : decodeIndex make c = .ok k c') (hmake : ∀ i, (make i).Fits) : k.Fits := by
  obtain ⟨i, c₁, -, hresult⟩ := bind_run_ok.1 h
  cases hresult
  exact hmake i

theorem fits_of_decodePair {make : UInt16 → UInt16 → Constant}
    (h : decodePair make c = .ok k c') (hmake : ∀ i j, (make i j).Fits) : k.Fits := by
  obtain ⟨i, c₁, -, h₁⟩ := bind_run_ok.1 h
  obtain ⟨j, c₂, -, hresult⟩ := bind_run_ok.1 h₁
  cases hresult
  exact hmake i j

theorem fits_of_decodeText {text : String} (h : decodeText c = .ok text c') :
    (utf8 text).Fits := by
  obtain ⟨n, c₁, -, h₁⟩ := bind_run_ok.1 h
  obtain ⟨bytes, c₂, hbytes, h₂⟩ := bind_run_ok.1 h₁
  have hlength := Decoder.length_of_take hbytes
  have hn := n.toNat_lt
  cases hdecode : ModifiedUtf8.decode bytes with
  | none =>
    rw [hdecode] at h₂
    cases h₂
  | some text' =>
    rw [hdecode] at h₂
    cases h₂
    have := ModifiedUtf8.length_le_of_decode hdecode
    change (ModifiedUtf8.encode text).length ≤ 65535
    omega

/-- **A constant that was read fits.** -/
theorem fits_of_decode {index : UInt16} (h : decode index c = .ok k c') : k.Fits := by
  obtain ⟨tag, c₁, -, h₁⟩ := bind_run_ok.1 h
  obtain ⟨d, hd, h₁⟩ : ∃ d : Decoder Constant, d = _ ∧ d c₁ = .ok k c' := ⟨_, rfl, h₁⟩
  split at hd <;> subst hd
  case h_1 =>
    obtain ⟨text, c₂, htext, hresult⟩ := bind_run_ok.1 h₁
    cases hresult
    exact fits_of_decodeText htext
  case h_6 | h_7 | h_13 | h_16 | h_17 => exact fits_of_decodeIndex h₁ fun _ => trivial
  case h_8 | h_9 | h_10 | h_11 | h_14 | h_15 => exact fits_of_decodePair h₁ fun _ _ => trivial
  case h_12 =>
    obtain ⟨kind, c₂, -, h₂⟩ := bind_run_ok.1 h₁
    obtain ⟨i, c₃, -, hresult⟩ := bind_run_ok.1 h₂
    cases hresult
    trivial
  case h_18 => cases h₁
  all_goals
    obtain ⟨value, c₂, -, hresult⟩ := bind_run_ok.1 h₁
    cases hresult
    trivial

end Constant

namespace Pool

theorem mem_push {entries : Array (Option Constant)} {k k' : Constant}
    (h : some k ∈ push entries k') : some k ∈ entries ∨ k = k' := by
  unfold push at h
  split at h <;> simpa using h

theorem textsFit_of_decodeFrom {count index : UInt16} {fuel : Nat}
    {entries : Array (Option Constant)} {p : Pool} (hentries : (Pool.mk entries).TextsFit)
    (h : decodeFrom count fuel index entries c = .ok p c') : p.TextsFit := by
  induction fuel generalizing index entries c with
  | zero =>
    cases h
    exact hentries
  | succ fuel ih =>
    unfold decodeFrom at h
    split at h
    · obtain ⟨k, c₁, hk, hrest⟩ := bind_run_ok.1 h
      refine ih (fun text htext => ?_) hrest
      rcases mem_push htext with hbefore | rfl
      · exact hentries text hbefore
      · exact Constant.fits_of_decode hk
    · cases h
      exact hentries

/-- **The texts of a pool that was read fit.** -/
theorem textsFit_of_decode {p : Pool} (h : decode c = .ok p c') : p.TextsFit := by
  obtain ⟨count, c₁, -, h₁⟩ := bind_run_ok.1 h
  obtain ⟨fuel, c₂, -, h₂⟩ := bind_run_ok.1 h₁
  exact textsFit_of_decodeFrom (fun text htext => by simp at htext) h₂

end Pool

/-- **The texts of a class file that was read fit.** -/
theorem ClassFile.textsFit_of_ofBytes {bytes : Bytes} {file : ClassFile}
    (h : ofBytes bytes = .ok file) : file.pool.TextsFit := by
  obtain ⟨file', hrun, hrest⟩ := bind_eq_ok.1 h
  obtain ⟨_, -, hresult⟩ := bind_eq_ok.1 hrest
  cases hresult
  unfold Decoder.run at hrun
  split at hrun
  · rename_i hwhole
    cases hrun
    obtain ⟨file', c₁, hdecode, hlast⟩ := bind_run_ok.1 hwhole
    obtain ⟨n, c₂, -, hdone⟩ := bind_run_ok.1 hlast
    split at hdone
    · cases hdone
      obtain ⟨found, c₃, -, h₃⟩ := bind_run_ok.1 hdecode
      split at h₃
      · cases h₃
      · obtain ⟨minor, c₄, -, h₄⟩ := bind_run_ok.1 h₃
        obtain ⟨major, c₅, -, h₅⟩ := bind_run_ok.1 h₄
        obtain ⟨p, c₆, hpool, h₆⟩ := bind_run_ok.1 h₅
        obtain ⟨access, c₇, -, h₇⟩ := bind_run_ok.1 h₆
        obtain ⟨thisClass, c₈, -, h₈⟩ := bind_run_ok.1 h₇
        obtain ⟨superClass, c₉, -, h₉⟩ := bind_run_ok.1 h₈
        obtain ⟨interfaces, d₁, -, k₁⟩ := bind_run_ok.1 h₉
        obtain ⟨fields, d₂, -, k₂⟩ := bind_run_ok.1 k₁
        obtain ⟨methods, d₃, -, k₃⟩ := bind_run_ok.1 k₂
        obtain ⟨attributes, d₄, -, hfile⟩ := bind_run_ok.1 k₃
        cases hfile
        exact Pool.textsFit_of_decode hpool
    · cases hdone
  · cases hrun

end ProxyForge
