import ProxyForge.Proofs.ClassFile.Accepted
/-!
# How a text is spelled in bytes

`ModifiedUtf8.UnitForm` says which bytes stand for a code unit: one, two or three, and more than the
unit needs if its high bits are zero. `ModifiedUtf8.Spells` puts such forms in a row, and
`ModifiedUtf8.WellPaired` says where surrogates may stand. `coded_exactly`: what the decoder reads as
a text is what spells its code units, and the shortest of these spellings is what the encoder
writes; bytes that spell no units, or units with a surrogate by itself, are no text.
-/

namespace ProxyForge

namespace ModifiedUtf8

variable {u : UInt16} {us : List UInt16} {bytes front rest : Bytes} {a b c : UInt8} {s : String}

/-! ## Forms -/

/-- **A byte behind the first one of its unit**: it starts with the bits `10`. -/
def Tail (b : UInt8) : Prop :=
  0x80 ≤ b.toNat ∧ b.toNat ≤ 0xbf

/-- **The bytes of a code unit.** The first one tells how many there are. -/
inductive UnitForm (u : UInt16) : Bytes → Prop
  | one {a : UInt8} (ha : 1 ≤ a.toNat ∧ a.toNat ≤ 0x7f) (hu : u.toNat = a.toNat) : UnitForm u [a]
  | two {a b : UInt8} (ha : 0xc0 ≤ a.toNat ∧ a.toNat ≤ 0xdf) (hb : Tail b)
      (hu : u.toNat = (a.toNat - 0xc0) * 0x40 + (b.toNat - 0x80)) : UnitForm u [a, b]
  | three {a b c : UInt8} (ha : 0xe0 ≤ a.toNat ∧ a.toNat ≤ 0xef) (hb : Tail b) (hc : Tail c)
      (hu : u.toNat = (a.toNat - 0xe0) * 0x1000 + (b.toNat - 0x80) * 0x40 + (c.toNat - 0x80)) :
      UnitForm u [a, b, c]

/-- **The shortest form** of a code unit. That of the unit zero has two bytes. -/
def ShortestForm (u : UInt16) (bytes : Bytes) : Prop :=
  UnitForm u bytes ∧ ∀ other, UnitForm u other → bytes.length ≤ other.length

/-- **Bytes that spell code units**, one behind the other, each in some form. -/
inductive Spells (form : UInt16 → Bytes → Prop) : List UInt16 → Bytes → Prop
  | nil : Spells form [] []
  | cons {u : UInt16} {us : List UInt16} {front rest : Bytes} (hu : form u front)
      (hus : Spells form us rest) : Spells form (u :: us) (front ++ rest)

/-- **Well-formed code units**: a surrogate stands in a pair, the high one in front. -/
inductive WellPaired : List UInt16 → Prop
  | nil : WellPaired []
  | plain {u : UInt16} {us : List UInt16} (hu : u.toNat < 0xd800 ∨ 0xdfff < u.toNat)
      (hus : WellPaired us) : WellPaired (u :: us)
  | pair {high low : UInt16} {us : List UInt16} (hhigh : 0xd800 ≤ high.toNat ∧ high.toNat ≤ 0xdbff)
      (hlow : 0xdc00 ≤ low.toNat ∧ low.toNat ≤ 0xdfff) (hus : WellPaired us) :
      WellPaired (high :: low :: us)

/-! ## Bytes by their number -/

/-- Which bytes the decoder takes for which part of a unit. -/
theorem byte_ranges (a : UInt8) :
    (a &&& 0x80 = 0 ↔ a.toNat ≤ 0x7f) ∧ (a &&& 0xe0 = 0xc0 ↔ 0xc0 ≤ a.toNat ∧ a.toNat ≤ 0xdf) ∧
      (a &&& 0xf0 = 0xe0 ↔ 0xe0 ≤ a.toNat ∧ a.toNat ≤ 0xef) ∧ (isContinuation a = true ↔ Tail a) := by
  have hbytes : ∀ n < 256, (UInt8.ofNat n &&& 0x80 = 0 ↔ n ≤ 0x7f) ∧
      (UInt8.ofNat n &&& 0xe0 = 0xc0 ↔ 0xc0 ≤ n ∧ n ≤ 0xdf) ∧
      (UInt8.ofNat n &&& 0xf0 = 0xe0 ↔ 0xe0 ≤ n ∧ n ≤ 0xef) ∧
      (isContinuation (UInt8.ofNat n) = true ↔ 0x80 ≤ n ∧ n ≤ 0xbf) := by
    decide +kernel
  have ha := hbytes a.toNat a.toNat_lt
  rwa [UInt8.ofNat_toNat] at ha

/-- The lowest bits of a byte, as a unit. -/
theorem toUInt16_low (a : UInt8) {k : Nat} (hk : k ≤ 7) :
    (a &&& UInt8.ofNat (2 ^ k - 1)).toUInt16 = UInt16.ofNat (a.toNat % 2 ^ k) := by
  have hpow : 2 ^ k ≤ 2 ^ 7 := Nat.pow_le_pow_right (by decide) hk
  have hmod : a.toNat % 2 ^ k < 2 ^ k := Nat.mod_lt _ (Nat.pow_pos (by decide))
  apply UInt16.toNat.inj
  rw [UInt8.toNat_toUInt16, UInt8.toNat_and, UInt8.toNat_ofNat', Nat.mod_eq_of_lt (by omega),
    Nat.and_two_pow_sub_one_eq_mod, toNat_ofNat_of_lt (by omega)]

/-- **The unit of two bytes**, by their numbers. -/
theorem toNat_two (ha : 0xc0 ≤ a.toNat ∧ a.toNat ≤ 0xdf) (hb : Tail b) :
    ((a &&& 0x1f).toUInt16 <<< 6 ||| continuationBits b).toNat =
      (a.toNat - 0xc0) * 0x40 + (b.toNat - 0x80) := by
  obtain ⟨hb₁, hb₂⟩ := hb
  have hfirst : (a &&& 0x1f).toUInt16 = UInt16.ofNat (a.toNat % 2 ^ 5) :=
    toUInt16_low a (k := 5) (by decide)
  have hsecond : continuationBits b = UInt16.ofNat (b.toNat % 2 ^ 6) :=
    toUInt16_low b (k := 6) (by decide)
  have hshift : UInt16.ofNat (a.toNat % 2 ^ 5) <<< 6 = UInt16.ofNat (a.toNat % 2 ^ 5 * 2 ^ 6) :=
    shiftLeft_ofNat (s := 6) (by decide) (by omega)
  rw [hfirst, hsecond, hshift, or_ofNat (by omega) (by omega), toNat_ofNat_of_lt (by omega)]
  omega

/-- **The unit of three bytes**, by their numbers. -/
theorem toNat_three (ha : 0xe0 ≤ a.toNat ∧ a.toNat ≤ 0xef) (hb : Tail b) (hc : Tail c) :
    ((a &&& 0x0f).toUInt16 <<< 12 ||| continuationBits b <<< 6 ||| continuationBits c).toNat =
      (a.toNat - 0xe0) * 0x1000 + (b.toNat - 0x80) * 0x40 + (c.toNat - 0x80) := by
  obtain ⟨hb₁, hb₂⟩ := hb
  obtain ⟨hc₁, hc₂⟩ := hc
  have hfirst : (a &&& 0x0f).toUInt16 = UInt16.ofNat (a.toNat % 2 ^ 4) :=
    toUInt16_low a (k := 4) (by decide)
  have hsecond : continuationBits b = UInt16.ofNat (b.toNat % 2 ^ 6) :=
    toUInt16_low b (k := 6) (by decide)
  have hthird : continuationBits c = UInt16.ofNat (c.toNat % 2 ^ 6) :=
    toUInt16_low c (k := 6) (by decide)
  have hshift₁ : UInt16.ofNat (a.toNat % 2 ^ 4) <<< 12 = UInt16.ofNat (a.toNat % 2 ^ 4 * 2 ^ 12) :=
    shiftLeft_ofNat (s := 12) (by decide) (by omega)
  have hshift₂ : UInt16.ofNat (b.toNat % 2 ^ 6) <<< 6 = UInt16.ofNat (b.toNat % 2 ^ 6 * 2 ^ 6) :=
    shiftLeft_ofNat (s := 6) (by decide) (by omega)
  have hjoin : a.toNat % 2 ^ 4 * 2 ^ 12 + b.toNat % 2 ^ 6 * 2 ^ 6 =
      (a.toNat % 2 ^ 4 * 2 ^ 6 + b.toNat % 2 ^ 6) * 2 ^ 6 := by omega
  rw [hfirst, hsecond, hthird, hshift₁, hshift₂, or_ofNat (by omega) (by omega), hjoin,
    or_ofNat (by omega) (by omega), toNat_ofNat_of_lt (by omega)]
  omega

/-! ## Reading what is spelled -/

/-- **A form is read as its unit.** -/
theorem decodeUnitsOnto_form (h : UnitForm u front) (acc : List UInt16) (rest : Bytes) :
    decodeUnitsOnto acc (front ++ rest) = decodeUnitsOnto (u :: acc) rest := by
  cases h with
  | @one a ha hu =>
    have hne : a ≠ 0 := by
      rintro rfl
      exact absurd ha.1 (by decide)
    rw [List.singleton_append, decodeUnitsOnto_single ((byte_ranges a).1.2 ha.2) hne]
    rw [show a.toUInt16 = u from UInt16.toNat.inj (by rw [UInt8.toNat_toUInt16, hu])]
  | @two a b ha hb hu =>
    obtain ⟨hone, htwo, -, -⟩ := byte_ranges a
    have hlarge : a &&& 0x80 ≠ 0 := fun hzero => by
      have := hone.1 hzero
      omega
    rw [List.cons_append, List.singleton_append,
      decodeUnitsOnto_pair hlarge (htwo.2 ha) ((byte_ranges b).2.2.2.2 hb)]
    rw [UInt16.toNat.inj ((toNat_two ha hb).trans hu.symm)]
  | @three a b c ha hb hc hu =>
    obtain ⟨hone, htwo, hthree, -⟩ := byte_ranges a
    have hlarge : a &&& 0x80 ≠ 0 := fun hzero => by
      have := hone.1 hzero
      omega
    have hnot : a &&& 0xe0 ≠ 0xc0 := fun hpair => by
      have := htwo.1 hpair
      omega
    rw [List.cons_append, List.cons_append, List.singleton_append,
      decodeUnitsOnto_triple hlarge hnot (hthree.2 ha) ((byte_ranges b).2.2.2.2 hb)
        ((byte_ranges c).2.2.2.2 hc)]
    rw [UInt16.toNat.inj ((toNat_three ha hb hc).trans hu.symm)]

theorem decodeUnitsOnto_of_spells (h : Spells UnitForm us bytes) (acc : List UInt16) :
    decodeUnitsOnto acc bytes = some (acc.reverse ++ us) := by
  induction h generalizing acc with
  | nil => rw [decodeUnitsOnto, List.append_nil]
  | cons hu _ ih =>
    rw [decodeUnitsOnto_form hu, ih, List.reverse_cons, List.append_assoc, List.singleton_append]

/-- **What is read spells what it is read as**, behind what was read before. -/
theorem spells_of_decodeUnitsOnto {acc : List UInt16} (h : decodeUnitsOnto acc bytes = some us) :
    ∃ more, us = acc.reverse ++ more ∧ Spells UnitForm more bytes := by
  have hstep : ∀ {u : UInt16} {acc : List UInt16} {front rest : Bytes}, UnitForm u front →
      (∃ more, us = (u :: acc).reverse ++ more ∧ Spells UnitForm more rest) →
      ∃ more, us = acc.reverse ++ more ∧ Spells UnitForm more (front ++ rest) := by
    rintro u acc front rest hu ⟨more, hus, hmore⟩
    refine ⟨u :: more, ?_, .cons hu hmore⟩
    rw [hus, List.reverse_cons, List.append_assoc, List.singleton_append]
  fun_induction decodeUnitsOnto acc bytes
  case case1 =>
    cases h
    exact ⟨[], (List.append_nil _).symm, .nil⟩
  case case2 a rest ha ih =>
    simp only [Bool.and_eq_true, decide_eq_true_eq] at ha
    have hle := (byte_ranges a).1.1 ha.1
    have hpos : a.toNat ≠ 0 := fun hzero => ha.2 (UInt8.toNat.inj hzero)
    exact hstep (.one ⟨by omega, hle⟩ (UInt8.toNat_toUInt16 a)) (ih h)
  case case3 a _ htwo b rest hb ih =>
    have ha := (byte_ranges a).2.1.1 htwo
    have hb' := (byte_ranges b).2.2.2.1 hb
    exact hstep (.two ha hb' (toNat_two ha hb')) (ih h)
  case case6 a _ _ hthree b c rest hbc ih =>
    obtain ⟨hb, hc⟩ := Bool.and_eq_true_iff.1 hbc
    have ha := (byte_ranges a).2.2.1.1 hthree
    have hb' := (byte_ranges b).2.2.2.1 hb
    have hc' := (byte_ranges c).2.2.2.1 hc
    exact hstep (.three ha hb' hc' (toNat_three ha hb' hc')) (ih h)
  all_goals cases h

/-- **The units of bytes are those that the bytes spell.** -/
theorem decodeUnits_eq_some_iff : decodeUnits bytes = some us ↔ Spells UnitForm us bytes := by
  constructor
  · intro h
    obtain ⟨more, hus, hmore⟩ := spells_of_decodeUnitsOnto h
    rwa [hus]
  · exact fun h => decodeUnitsOnto_of_spells h []

/-! ## Bytes that stand in a form -/

/-- **No byte of a form is zero**, and none is as great as the first byte of four would be. -/
theorem UnitForm.bytes_lt (h : UnitForm u front) : ∀ b ∈ front, b ≠ 0 ∧ b < 0xf0 := by
  have hbyte : ∀ b : UInt8, 1 ≤ b.toNat ∧ b.toNat ≤ 0xef → b ≠ 0 ∧ b < 0xf0 := by
    rintro b ⟨hpos, hle⟩
    refine ⟨?_, UInt8.lt_iff_toNat_lt.2 (Nat.lt_of_le_of_lt hle (by decide))⟩
    rintro rfl
    exact absurd hpos (by decide)
  intro b hb
  refine hbyte b ?_
  cases h with
  | one ha =>
    obtain rfl := List.mem_singleton.1 hb
    omega
  | two ha htail =>
    obtain ⟨hlow, hhigh⟩ := htail
    rcases List.mem_pair.1 hb with rfl | rfl <;> omega
  | three ha htail htail' =>
    obtain ⟨hlow, hhigh⟩ := htail
    obtain ⟨hlow', hhigh'⟩ := htail'
    rcases List.mem_cons.1 hb with rfl | hb
    · omega
    · rcases List.mem_pair.1 hb with rfl | rfl <;> omega

theorem Spells.bytes_lt (h : Spells UnitForm us bytes) : ∀ b ∈ bytes, b ≠ 0 ∧ b < 0xf0 := by
  induction h with
  | nil => exact nofun
  | cons hu _ ih =>
    intro b hb
    rcases List.mem_append.1 hb with hfront | hrest
    · exact hu.bytes_lt b hfront
    · exact ih b hrest

/-! ## Shortest forms -/

/-- What spells a single unit is a form of it. -/
theorem unitForm_of_spells (h : Spells UnitForm [u] bytes) : UnitForm u bytes := by
  cases h with
  | cons hu hus =>
    cases hus with
    | nil => rwa [List.append_nil]

/-- What the encoder writes for a unit is a form of it, since it is read as the unit. -/
theorem unitForm_encodeUnit (u : UInt16) : UnitForm u (encodeUnit u) := by
  refine unitForm_of_spells (decodeUnits_eq_some_iff.1 ?_)
  have hread := decodeUnitsOnto_flatMap [] [u]
  rwa [List.flatMap_singleton] at hread

/-- **A unit has one form of each length.** -/
theorem UnitForm.unique {other : Bytes} (h : UnitForm u front) (h' : UnitForm u other)
    (hlen : front.length = other.length) : front = other := by
  cases h with
  | one ha hu =>
    cases h' with
    | one ha' hu' => rw [UInt8.toNat.inj (hu.symm.trans hu')]
    | two => cases hlen
    | three => cases hlen
  | @two a b ha hb hu =>
    cases h' with
    | one => cases hlen
    | @two a' b' ha' hb' hu' =>
      obtain ⟨⟨hb₁, hb₂⟩, hb₁', hb₂'⟩ := And.intro hb hb'
      have hfirst : a = a' := UInt8.toNat.inj (by omega)
      have hsecond : b = b' := UInt8.toNat.inj (by omega)
      rw [hfirst, hsecond]
    | three => cases hlen
  | @three a b c ha hb hc hu =>
    cases h' with
    | one => cases hlen
    | two => cases hlen
    | @three a' b' c' ha' hb' hc' hu' =>
      obtain ⟨⟨hb₁, hb₂⟩, hb₁', hb₂'⟩ := And.intro hb hb'
      obtain ⟨⟨hc₁, hc₂⟩, hc₁', hc₂'⟩ := And.intro hc hc'
      have hfirst : a = a' := UInt8.toNat.inj (by omega)
      have hsecond : b = b' := UInt8.toNat.inj (by omega)
      have hthird : c = c' := UInt8.toNat.inj (by omega)
      rw [hfirst, hsecond, hthird]

/-- How many bytes the encoder writes for a unit. -/
theorem length_encodeUnit (u : UInt16) : (encodeUnit u).length =
    if 1 ≤ u.toNat ∧ u.toNat ≤ 0x7f then 1 else if u.toNat ≤ 0x7ff then 2 else 3 := by
  have hone : (0x0001 ≤ u && u ≤ 0x007f) = true ↔ 1 ≤ u.toNat ∧ u.toNat ≤ 0x7f := by
    simp only [Bool.and_eq_true, decide_eq_true_eq, UInt16.le_iff_toNat_le]
    exact Iff.rfl
  have htwo : u ≤ 0x07ff ↔ u.toNat ≤ 0x7ff := UInt16.le_iff_toNat_le
  unfold encodeUnit
  simp only [hone, htwo]
  split
  · rfl
  · split <;> rfl

/-- **No form of a unit is shorter** than what the encoder writes. -/
theorem UnitForm.length_encodeUnit_le (h : UnitForm u front) :
    (encodeUnit u).length ≤ front.length := by
  rw [length_encodeUnit]
  cases h with
  | one ha hu =>
    rw [if_pos (by omega)]
    exact Nat.le_refl 1
  | two ha hb hu =>
    obtain ⟨hlow, hhigh⟩ := hb
    rw [if_pos (show u.toNat ≤ 0x7ff by omega)]
    split <;> exact Nat.le_of_ble_eq_true rfl
  | three =>
    split
    · exact Nat.le_of_ble_eq_true rfl
    · split <;> exact Nat.le_of_ble_eq_true rfl

/-- **The shortest form is what the encoder writes.** -/
theorem shortestForm_iff : ShortestForm u front ↔ front = encodeUnit u := by
  constructor
  · rintro ⟨hform, hmin⟩
    have hle := hmin _ (unitForm_encodeUnit u)
    exact hform.unique (unitForm_encodeUnit u)
      (Nat.le_antisymm hle hform.length_encodeUnit_le)
  · rintro rfl
    exact ⟨unitForm_encodeUnit u, fun _ hother => hother.length_encodeUnit_le⟩

/-- **The shortest spelling of units** is what the encoder writes for them. -/
theorem spells_shortestForm_iff : Spells ShortestForm us bytes ↔ bytes = us.flatMap encodeUnit := by
  constructor
  · intro h
    induction h with
    | nil => rfl
    | cons hu _ ih => rw [List.flatMap_cons, shortestForm_iff.1 hu, ih]
  · rintro rfl
    induction us with
    | nil => exact .nil
    | cons u us ih => exact .cons (shortestForm_iff.2 rfl) ih

theorem Spells.of_shortestForm (h : Spells ShortestForm us bytes) : Spells UnitForm us bytes := by
  induction h with
  | nil => exact .nil
  | cons hu _ ih => exact .cons hu.1 ih

/-! ## Code units of a text -/

/-- **A text of code units** is the one that has them. -/
theorem chars_eq_some_iff {text : List Char} : chars us = some text ↔ units text = us :=
  ⟨fun h => units_of_charsOnto h, fun h => h ▸ charsOnto_units [] text⟩

theorem decode_eq_some_iff : decode bytes = some s ↔ decodeUnits bytes = some (units s.toList) := by
  unfold decode
  constructor
  · intro h
    obtain ⟨us, hus, hrest⟩ := Option.bind_eq_some_iff.1 h
    obtain ⟨text, htext, hs⟩ := Option.bind_eq_some_iff.1 hrest
    cases hs
    rw [hus, String.toList_ofList, chars_eq_some_iff.1 htext]
  · intro h
    rw [h, Option.bind_eq_bind, Option.bind_some, chars_eq_some_iff.2 rfl]
    exact congrArg some String.ofList_toList

theorem isHighSurrogate_iff : isHighSurrogate u = true ↔ 0xd800 ≤ u.toNat ∧ u.toNat ≤ 0xdbff := by
  rw [← UInt16.ofNat_toNat (x := u), isHighSurrogate_ofNat u.toNat_lt, decide_eq_true_eq,
    UInt16.ofNat_toNat]

theorem isLowSurrogate_iff : isLowSurrogate u = true ↔ 0xdc00 ≤ u.toNat ∧ u.toNat ≤ 0xdfff := by
  rw [← UInt16.ofNat_toNat (x := u), isLowSurrogate_ofNat u.toNat_lt, decide_eq_true_eq,
    UInt16.ofNat_toNat]

/-- Units that are a text are well paired. -/
theorem wellPaired_of_charsOnto {acc text : List Char} (h : charsOnto acc us = some text) :
    WellPaired us := by
  fun_induction charsOnto acc us
  case case1 => exact .nil
  case case2 hhigh low rest hlow ih =>
    exact .pair (isHighSurrogate_iff.1 hhigh) (isLowSurrogate_iff.1 hlow) (ih h)
  case case6 hhigh hlow ih =>
    rw [isHighSurrogate_iff] at hhigh
    rw [isLowSurrogate_iff] at hlow
    exact .plain (by omega) (ih h)
  all_goals cases h

/-- **Units are those of a text** exactly if they are well paired. -/
theorem wellPaired_iff : WellPaired us ↔ ∃ text, units text = us := by
  constructor
  · intro h
    induction h with
    | nil => exact ⟨[], rfl⟩
    | @plain u us hu _ ih =>
      obtain ⟨text, rfl⟩ := ih
      have hhigh : ¬ isHighSurrogate u = true := by
        rw [isHighSurrogate_iff]
        omega
      have hlow : ¬ isLowSurrogate u = true := by
        rw [isLowSurrogate_iff]
        omega
      refine ⟨Char.ofNat u.toNat :: text, ?_⟩
      rw [units, List.flatMap_cons, unitsOfChar_ofNat (eq_false_of_ne_true hhigh)
        (eq_false_of_ne_true hlow)]
      rfl
    | @pair high low us hhigh hlow _ ih =>
      obtain ⟨text, rfl⟩ := ih
      refine ⟨charOfPair high low :: text, ?_⟩
      rw [units, List.flatMap_cons, unitsOfChar_charOfPair (isHighSurrogate_iff.2 hhigh)
        (isLowSurrogate_iff.2 hlow)]
      rfl
  · rintro ⟨text, rfl⟩
    exact wellPaired_of_charsOnto (chars_eq_some_iff.2 rfl)

/-! ## Texts and bytes -/

/-- **Texts are coded exactly.** A text is read back from the bytes that it is written as, none of
which is zero or above `EF`. Bytes are read as a text exactly if they spell its code units, and they
are what it is written as exactly if they spell them in the shortest forms. What spells no code
units, or has a surrogate that stands by itself, is read as no text. -/
theorem coded_exactly (s : String) (bytes : Bytes) :
    decode (encode s) = some s ∧ (∀ b ∈ encode s, b ≠ 0 ∧ b < 0xf0) ∧
      (decode bytes = some s ↔ Spells UnitForm (units s.toList) bytes) ∧
      (encode s = bytes ↔ decode bytes = some s ∧ ∃ us, Spells ShortestForm us bytes) ∧
      (decode bytes = none ↔ ¬ ∃ us, Spells UnitForm us bytes ∧ WellPaired us) := by
  have hread : ∀ {bytes : Bytes} {s : String},
      decode bytes = some s ↔ Spells UnitForm (units s.toList) bytes :=
    decode_eq_some_iff.trans decodeUnits_eq_some_iff
  have hback := decode_encode s
  refine ⟨hback, (hread.1 hback).bytes_lt, hread, ?_, ?_⟩
  · constructor
    · rintro rfl
      exact ⟨hback, units s.toList, spells_shortestForm_iff.2 rfl⟩
    · rintro ⟨hs, us, hus⟩
      -- bytes spell one list of units only
      have hunits : units s.toList = us :=
        Option.some.inj ((decode_eq_some_iff.1 hs).symm.trans
          (decodeUnits_eq_some_iff.2 hus.of_shortestForm))
      rw [spells_shortestForm_iff.1 hus, ← hunits, encode]
  · rw [Option.eq_none_iff_forall_ne_some, not_exists]
    constructor
    · rintro hnone us ⟨hspells, hpaired⟩
      obtain ⟨text, rfl⟩ := wellPaired_iff.1 hpaired
      refine hnone (String.ofList text) (hread.2 ?_)
      rwa [String.toList_ofList]
    · intro hnone s hs
      exact hnone _ ⟨hread.1 hs, wellPaired_iff.2 ⟨_, rfl⟩⟩

/-- The letter `A` in two bytes is read, but it is not the shortest spelling of anything. -/
theorem coded_exactly_overlong : decode [0xc1, 0x81] = some "A" ∧
    (¬ ∃ us, Spells ShortestForm us [0xc1, 0x81]) ∧
    (0x41 ∈ encode "A" ∧ (0x41 : UInt8) ≠ 0 ∧ (0x41 : UInt8) < 0xf0) := by
  obtain ⟨-, hbytes, -, hshortest, -⟩ := coded_exactly "A" [0xc1, 0x81]
  have hread : decode [0xc1, 0x81] = some "A" := by decide
  have hother : encode "A" ≠ [0xc1, 0x81] := by decide
  have hletter : 0x41 ∈ encode "A" := by decide
  exact ⟨hread, fun hspells => hother (hshortest.2 ⟨hread, hspells⟩), hletter, hbytes 0x41 hletter⟩

/-- A zero byte, a byte that is missing or wrong behind the first one of its unit, the first byte of
four, and a surrogate without the other one. -/
example : [[0x00], [0xc3], [0xe2, 0x82, 0x41], [0xf0, 0x9f, 0x98, 0x80], [0xed, 0xa0, 0xbd]].map
    decode = List.replicate 5 none := by
  decide

end ModifiedUtf8

end ProxyForge
