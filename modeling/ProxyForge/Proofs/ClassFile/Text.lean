import Mathlib.Algebra.Group.Nat.Defs
import ProxyForge.Bytes.ModifiedUtf8
import ProxyForge.Proofs.Outcome
/-!
# Texts in class files

A text is read back from its bytes (`ModifiedUtf8.decode_encode`): each code unit from its one, two
or three bytes, and each character from its one or two code units.
-/

namespace ProxyForge

open Outcome

namespace ModifiedUtf8

/-! ## Bytes of a code unit -/

/-- A byte of a unit that takes one. -/
theorem single_byte : ∀ n < 128, n ≠ 0 → UInt8.ofNat n &&& 0x80 = 0 ∧ UInt8.ofNat n ≠ 0 := by
  decide

/-- The first of two bytes, and its bits. -/
theorem first_of_two : ∀ n < 32, ((0xc0 : UInt8) ||| UInt8.ofNat n) &&& 0x80 ≠ 0 ∧
    ((0xc0 : UInt8) ||| UInt8.ofNat n) &&& 0xe0 = 0xc0 ∧
    ((0xc0 : UInt8) ||| UInt8.ofNat n) &&& 0x1f = UInt8.ofNat n := by
  decide

/-- The first of three bytes, and its bits. -/
theorem first_of_three : ∀ n < 16, ((0xe0 : UInt8) ||| UInt8.ofNat n) &&& 0x80 ≠ 0 ∧
    ((0xe0 : UInt8) ||| UInt8.ofNat n) &&& 0xe0 ≠ 0xc0 ∧
    ((0xe0 : UInt8) ||| UInt8.ofNat n) &&& 0xf0 = 0xe0 ∧
    ((0xe0 : UInt8) ||| UInt8.ofNat n) &&& 0x0f = UInt8.ofNat n := by
  decide

/-- A byte behind the first one, and its bits. -/
theorem continuation_byte : ∀ n < 64, isContinuation ((0x80 : UInt8) ||| UInt8.ofNat n) = true ∧
    continuationBits ((0x80 : UInt8) ||| UInt8.ofNat n) = UInt16.ofNat n := by
  decide

theorem toNat_ofNat_of_lt {n : Nat} (h : n < 65536) : (UInt16.ofNat n).toNat = n := by
  rw [UInt16.toNat_ofNat']
  exact Nat.mod_eq_of_lt h

/-- Some bits of a code unit, as a byte. -/
theorem toUInt8_shiftRight_and (u : UInt16) {s k : Nat} (hs : s < 16) (hk : k ≤ 6) :
    ((u >>> UInt16.ofNat s) &&& UInt16.ofNat (2 ^ k - 1)).toUInt8 =
      UInt8.ofNat (u.toNat / 2 ^ s % 2 ^ k) := by
  have hpow : 2 ^ k ≤ 2 ^ 6 := Nat.pow_le_pow_right (by decide) hk
  apply UInt8.toNat.inj
  rw [UInt16.toNat_toUInt8, UInt16.toNat_and, toNat_ofNat_of_lt (by omega),
    UInt16.toNat_shiftRight, toNat_ofNat_of_lt (by omega), Nat.mod_eq_of_lt hs,
    Nat.and_two_pow_sub_one_eq_mod, UInt8.toNat_ofNat', Nat.shiftRight_eq_div_pow]

theorem toUInt8_and (u : UInt16) : (u &&& 0x3f).toUInt8 = UInt8.ofNat (u.toNat % 64) := by
  apply UInt8.toNat.inj
  rw [UInt16.toNat_toUInt8, UInt16.toNat_and, UInt8.toNat_ofNat']
  exact congrArg (· % 2 ^ 8) (Nat.and_two_pow_sub_one_eq_mod u.toNat 6)

/-- Bits put at their place. -/
theorem shiftLeft_ofNat {n s : Nat} (hs : s < 16) (h : n * 2 ^ s < 65536) :
    UInt16.ofNat n <<< UInt16.ofNat s = UInt16.ofNat (n * 2 ^ s) := by
  have hpos : 0 < 2 ^ s := Nat.pow_pos (by decide)
  have hle : n ≤ n * 2 ^ s := Nat.le_mul_of_pos_right n hpos
  apply UInt16.toNat.inj
  rw [UInt16.toNat_shiftLeft, toNat_ofNat_of_lt (by omega), toNat_ofNat_of_lt (by omega),
    toNat_ofNat_of_lt h, Nat.mod_eq_of_lt hs, Nat.shiftLeft_eq, Nat.mod_eq_of_lt h]

/-- Bits put behind others. -/
theorem or_ofNat {a b s : Nat} (hb : b < 2 ^ s) (h : a * 2 ^ s + b < 65536) :
    UInt16.ofNat (a * 2 ^ s) ||| UInt16.ofNat b = UInt16.ofNat (a * 2 ^ s + b) := by
  apply UInt16.toNat.inj
  rw [UInt16.toNat_or, toNat_ofNat_of_lt (by omega), toNat_ofNat_of_lt (by omega),
    toNat_ofNat_of_lt h, Nat.mul_comm, Nat.two_pow_add_eq_or_of_lt hb]

theorem toUInt16_ofNat {n : Nat} (h : n < 256) : (UInt8.ofNat n).toUInt16 = UInt16.ofNat n := by
  apply UInt16.toNat.inj
  rw [UInt8.toNat_toUInt16, UInt8.toNat_ofNat', toNat_ofNat_of_lt (by omega)]
  exact Nat.mod_eq_of_lt h

/-! ## Reading a code unit -/

section

variable {acc : List UInt16} {rest : Bytes} {b b₁ b₂ : UInt8}

theorem decodeUnitsOnto_single (h : b &&& 0x80 = 0) (hb : b ≠ 0) :
    decodeUnitsOnto acc (b :: rest) = decodeUnitsOnto (b.toUInt16 :: acc) rest := by
  conv => lhs; unfold decodeUnitsOnto
  rw [if_pos]
  simp [h, hb]

theorem decodeUnitsOnto_pair (h : b &&& 0x80 ≠ 0) (htwo : b &&& 0xe0 = 0xc0)
    (h₁ : isContinuation b₁ = true) : decodeUnitsOnto acc (b :: b₁ :: rest) =
      decodeUnitsOnto (((b &&& 0x1f).toUInt16 <<< 6 ||| continuationBits b₁) :: acc) rest := by
  conv => lhs; unfold decodeUnitsOnto
  rw [if_neg (by simp [h]), if_pos htwo]
  exact if_pos h₁

theorem decodeUnitsOnto_triple (h : b &&& 0x80 ≠ 0) (htwo : b &&& 0xe0 ≠ 0xc0)
    (hthree : b &&& 0xf0 = 0xe0) (h₁ : isContinuation b₁ = true) (h₂ : isContinuation b₂ = true) :
    decodeUnitsOnto acc (b :: b₁ :: b₂ :: rest) =
      decodeUnitsOnto (((b &&& 0x0f).toUInt16 <<< 12 ||| continuationBits b₁ <<< 6 |||
        continuationBits b₂) :: acc) rest := by
  conv => lhs; unfold decodeUnitsOnto
  rw [if_neg (by simp [h]), if_neg htwo, if_pos hthree]
  exact if_pos (by simp [h₁, h₂])

end

/-- **A code unit is read back from its bytes.** -/
theorem decodeUnitsOnto_encodeUnit (acc : List UInt16) (u : UInt16) (rest : Bytes) :
    decodeUnitsOnto acc (encodeUnit u ++ rest) = decodeUnitsOnto (u :: acc) rest := by
  have hu := u.toNat_lt
  have hunit : UInt16.ofNat u.toNat = u := UInt16.ofNat_toNat
  unfold encodeUnit
  split
  · -- one byte
    rename_i hsmall
    simp only [Bool.and_eq_true, decide_eq_true_eq, UInt16.le_iff_toNat_le,
      show (1 : UInt16).toNat = 1 from rfl, show (0x7f : UInt16).toNat = 127 from rfl] at hsmall
    have hbyte : u.toUInt8 = UInt8.ofNat u.toNat := by
      apply UInt8.toNat.inj
      rw [UInt16.toNat_toUInt8, UInt8.toNat_ofNat']
    obtain ⟨hand, hne⟩ := single_byte u.toNat (by omega) (by omega)
    rw [hbyte, List.singleton_append, decodeUnitsOnto_single hand hne,
      toUInt16_ofNat (by omega), hunit]
  · split
    · -- two bytes
      rename_i hle
      rw [UInt16.le_iff_toNat_le, show (0x7ff : UInt16).toNat = 2047 from rfl] at hle
      have hhigh := toUInt8_shiftRight_and u (s := 6) (k := 5) (by decide) (by decide)
      have hdiv : u.toNat / 2 ^ 6 % 2 ^ 5 = u.toNat / 2 ^ 6 := Nat.mod_eq_of_lt (by omega)
      rw [hdiv] at hhigh
      obtain ⟨hand, htwo, hbits⟩ := first_of_two (u.toNat / 2 ^ 6) (by omega)
      obtain ⟨hcont, hlow⟩ := continuation_byte (u.toNat % 64) (by omega)
      have hjoin : (UInt8.ofNat (u.toNat / 2 ^ 6)).toUInt16 <<< UInt16.ofNat 6 |||
          UInt16.ofNat (u.toNat % 64) = u := by
        rw [toUInt16_ofNat (by omega), shiftLeft_ofNat (by decide) (by omega),
          or_ofNat (by omega) (by omega)]
        exact (congrArg UInt16.ofNat (by omega)).trans hunit
      rw [show ((u >>> 6) &&& 0x1f).toUInt8 = UInt8.ofNat (u.toNat / 2 ^ 6) from hhigh,
        toUInt8_and, List.cons_append, List.singleton_append,
        decodeUnitsOnto_pair hand htwo hcont, hbits, hlow]
      exact congrArg (decodeUnitsOnto · rest) (congrArg (· :: acc) hjoin)
    · -- three bytes
      have hhigh := toUInt8_shiftRight_and u (s := 12) (k := 4) (by decide) (by decide)
      have hmiddle := toUInt8_shiftRight_and u (s := 6) (k := 6) (by decide) (by decide)
      have hdiv : u.toNat / 2 ^ 12 % 2 ^ 4 = u.toNat / 2 ^ 12 := Nat.mod_eq_of_lt (by omega)
      rw [hdiv] at hhigh
      obtain ⟨hand, hnottwo, hthree, hbits⟩ := first_of_three (u.toNat / 2 ^ 12) (by omega)
      obtain ⟨hcont₁, hlow₁⟩ := continuation_byte (u.toNat / 2 ^ 6 % 2 ^ 6) (by omega)
      obtain ⟨hcont₂, hlow₂⟩ := continuation_byte (u.toNat % 64) (by omega)
      have hjoin : (UInt8.ofNat (u.toNat / 2 ^ 12)).toUInt16 <<< UInt16.ofNat 12 |||
          UInt16.ofNat (u.toNat / 2 ^ 6 % 2 ^ 6) <<< UInt16.ofNat 6 |||
          UInt16.ofNat (u.toNat % 64) = u := by
        rw [toUInt16_ofNat (by omega), shiftLeft_ofNat (by decide) (by omega),
          shiftLeft_ofNat (by decide) (by omega), or_ofNat (by omega) (by omega)]
        have hsum : u.toNat / 2 ^ 12 * 2 ^ 12 + u.toNat / 2 ^ 6 % 2 ^ 6 * 2 ^ 6 =
            u.toNat / 2 ^ 6 * 2 ^ 6 := by omega
        rw [hsum, or_ofNat (by omega) (by omega)]
        exact (congrArg UInt16.ofNat (by omega)).trans hunit
      rw [show ((u >>> 12) &&& 0x0f).toUInt8 = UInt8.ofNat (u.toNat / 2 ^ 12) from hhigh,
        show ((u >>> 6) &&& 0x3f).toUInt8 = UInt8.ofNat (u.toNat / 2 ^ 6 % 2 ^ 6) from hmiddle,
        toUInt8_and, List.cons_append, List.cons_append, List.singleton_append,
        decodeUnitsOnto_triple hand hnottwo hthree hcont₁ hcont₂, hbits, hlow₁, hlow₂]
      exact congrArg (decodeUnitsOnto · rest) (congrArg (· :: acc) hjoin)

theorem decodeUnitsOnto_flatMap (acc us : List UInt16) :
    decodeUnitsOnto acc (us.flatMap encodeUnit) = some (acc.reverse ++ us) := by
  induction us generalizing acc with
  | nil => rw [List.flatMap_nil, decodeUnitsOnto, List.append_nil]
  | cons u us ih =>
    rw [List.flatMap_cons, decodeUnitsOnto_encodeUnit, ih, List.reverse_cons, List.append_assoc,
      List.singleton_append]

/-! ## Code units of a character -/

section

variable {acc : List Char} {rest : List UInt16} {u low : UInt16}

theorem charsOnto_single (hhigh : isHighSurrogate u = false) (hlow : isLowSurrogate u = false) :
    charsOnto acc (u :: rest) = charsOnto (Char.ofNat u.toNat :: acc) rest := by
  conv => lhs; unfold charsOnto
  rw [if_neg (by simp [hhigh]), if_neg (by simp [hlow])]

theorem charsOnto_pair (hhigh : isHighSurrogate u = true) (hlow : isLowSurrogate low = true) :
    charsOnto acc (u :: low :: rest) = charsOnto (charOfPair u low :: acc) rest := by
  conv => lhs; unfold charsOnto
  rw [if_pos hhigh]
  exact if_pos hlow

end

theorem isHighSurrogate_ofNat {n : Nat} (h : n < 65536) :
    isHighSurrogate (UInt16.ofNat n) = decide (0xd800 ≤ n ∧ n ≤ 0xdbff) := by
  simp only [isHighSurrogate, Bool.decide_and, UInt16.le_iff_toNat_le, toNat_ofNat_of_lt h]
  rfl

theorem isLowSurrogate_ofNat {n : Nat} (h : n < 65536) :
    isLowSurrogate (UInt16.ofNat n) = decide (0xdc00 ≤ n ∧ n ≤ 0xdfff) := by
  simp only [isLowSurrogate, Bool.decide_and, UInt16.le_iff_toNat_le, toNat_ofNat_of_lt h]
  rfl

/-- **A character is read back from its code units.** -/
theorem charsOnto_unitsOfChar (acc : List Char) (c : Char) (rest : List UInt16) :
    charsOnto acc (unitsOfChar c ++ rest) = charsOnto (c :: acc) rest := by
  have hvalid : c.toNat.isValidChar := c.valid
  have hback : Char.ofNat c.toNat = c := Char.ofNat_toNat c
  unfold Nat.isValidChar at hvalid
  unfold unitsOfChar
  dsimp only
  split
  · -- no character is a surrogate
    rename_i hsmall
    rw [List.singleton_append, charsOnto_single, toNat_ofNat_of_lt hsmall, hback]
    · rw [isHighSurrogate_ofNat hsmall, decide_eq_false_iff_not]
      omega
    · rw [isLowSurrogate_ofNat hsmall, decide_eq_false_iff_not]
      omega
  · -- the two halves of a pair
    rename_i hlarge
    have hhigh : 0xd800 + (c.toNat - 0x10000) / 0x400 < 65536 := by omega
    have hlow : 0xdc00 + (c.toNat - 0x10000) % 0x400 < 65536 := by omega
    have hpair : charOfPair (UInt16.ofNat (0xd800 + (c.toNat - 0x10000) / 0x400))
        (UInt16.ofNat (0xdc00 + (c.toNat - 0x10000) % 0x400)) = c := by
      unfold charOfPair
      rw [toNat_ofNat_of_lt hhigh, toNat_ofNat_of_lt hlow]
      exact (congrArg Char.ofNat (by omega)).trans hback
    rw [List.cons_append, List.singleton_append, charsOnto_pair, hpair]
    · rw [isHighSurrogate_ofNat hhigh, decide_eq_true_eq]
      omega
    · rw [isLowSurrogate_ofNat hlow, decide_eq_true_eq]
      omega

theorem charsOnto_units (acc text : List Char) :
    charsOnto acc (units text) = some (acc.reverse ++ text) := by
  induction text generalizing acc with
  | nil => rw [units, List.flatMap_nil, charsOnto, List.append_nil]
  | cons c text ih =>
    rw [units] at ih ⊢
    rw [List.flatMap_cons, charsOnto_unitsOfChar, ih, List.reverse_cons, List.append_assoc,
      List.singleton_append]

/-! ## Texts -/

/-- **A text is read back from its bytes.** -/
theorem decode_encode (s : String) : decode (encode s) = some s := by
  have hunits : decodeUnits (encode s) = some (units s.toList) :=
    decodeUnitsOnto_flatMap [] (units s.toList)
  have hchars : chars (units s.toList) = some s.toList := charsOnto_units [] s.toList
  unfold decode
  rw [hunits, Option.bind_eq_bind, Option.bind_some, hchars]
  exact congrArg some String.ofList_toList

/-! ## Lengths -/

theorem length_encodeUnit_le (u : UInt16) : (encodeUnit u).length ≤ 3 := by
  unfold encodeUnit
  split
  · exact Nat.le_of_ble_eq_true rfl
  · split <;> exact Nat.le_of_ble_eq_true rfl

/-- A text has at least as many bytes as characters. -/
theorem length_le_encode (text : String) : text.toList.length ≤ (encode text).length := by
  have hunits : text.toList.length ≤ (units text.toList).length :=
    length_le_flatMap (fun c => by
      unfold unitsOfChar
      dsimp only
      split <;> exact Nat.succ_pos _) text.toList
  refine Nat.le_trans hunits (length_le_flatMap (fun u => ?_) _)
  unfold encodeUnit
  split
  · exact Nat.succ_pos _
  · split <;> exact Nat.succ_pos _

/-- A text has at most six bytes for each character. -/
theorem length_encode_le (text : String) : (encode text).length ≤ 6 * text.length := by
  have hunits : (units text.toList).length ≤ 2 * text.toList.length :=
    length_flatMap_le (fun c => by
      unfold unitsOfChar
      dsimp only
      split <;> exact Nat.le_of_ble_eq_true rfl) text.toList
  have hbytes := length_flatMap_le length_encodeUnit_le (units text.toList)
  rw [String.length_toList] at hunits
  unfold encode
  omega

end ModifiedUtf8

end ProxyForge
