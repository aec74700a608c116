import ProxyForge.Bytes.Decoder
import ProxyForge.Proofs.Outcome
/-!
# Reading what was written

`Decoder.ReadsAt d offset bytes x`: where the bytes stand at the offset, the decoder gives `x` and
leaves what follows them. In this form facts about parts compose to facts about the whole
(`ReadsAt.bind`), whatever stands behind.
-/

namespace ProxyForge

/-! ## Numbers -/

namespace Bytes

theorem ofBe16_be16 (n : UInt16) : ofBe16 (n >>> 8).toUInt8 n.toUInt8 = n := by
  apply UInt16.toNat.inj
  have hn := n.toNat_lt
  simp only [ofBe16, UInt16.toNat_or, UInt16.toNat_shiftLeft, UInt8.toNat_toUInt16,
    UInt16.toNat_toUInt8, UInt16.toNat_shiftRight, UInt16.toNat_ofNat]
  rw [show 8 % 2 ^ 16 % 16 = 8 from rfl, Nat.shiftRight_eq_div_pow, Nat.shiftLeft_eq]
  have hhigh : n.toNat / 2 ^ 8 % 2 ^ 8 = n.toNat / 2 ^ 8 := Nat.mod_eq_of_lt (by omega)
  rw [hhigh, Nat.mod_eq_of_lt (by omega), Nat.mul_comm, ← Nat.two_pow_add_eq_or_of_lt (by omega)]
  omega

/-- Two bytes are those of their number. -/
theorem be16_ofBe16 (a b : UInt8) : be16 (ofBe16 a b) = [a, b] := by
  have ha := a.toNat_lt
  have hb := b.toNat_lt
  have hnat : (ofBe16 a b).toNat = a.toNat * 2 ^ 8 + b.toNat := by
    simp only [ofBe16, UInt16.toNat_or, UInt16.toNat_shiftLeft, UInt8.toNat_toUInt16,
      UInt16.toNat_ofNat]
    rw [show 8 % 2 ^ 16 % 16 = 8 from rfl, Nat.shiftLeft_eq, Nat.mod_eq_of_lt (by omega),
      Nat.mul_comm, ← Nat.two_pow_add_eq_or_of_lt (by omega)]
  have hhigh : (ofBe16 a b >>> 8).toUInt8 = a := by
    apply UInt8.toNat.inj
    simp only [UInt16.toNat_toUInt8, UInt16.toNat_shiftRight, UInt16.toNat_ofNat]
    rw [show 8 % 2 ^ 16 % 16 = 8 from rfl, Nat.shiftRight_eq_div_pow, hnat]
    omega
  have hlow : (ofBe16 a b).toUInt8 = b := by
    apply UInt8.toNat.inj
    rw [UInt16.toNat_toUInt8, hnat]
    omega
  rw [be16, hhigh, hlow]

theorem ofBe32_be32 (n : UInt32) :
    ofBe32 (n >>> 24).toUInt8 (n >>> 16).toUInt8 (n >>> 8).toUInt8 n.toUInt8 = n := by
  apply UInt32.toNat.inj
  have hn := n.toNat_lt
  simp only [ofBe32, UInt32.toNat_or, UInt32.toNat_shiftLeft, UInt8.toNat_toUInt32,
    UInt32.toNat_toUInt8, UInt32.toNat_shiftRight, UInt32.toNat_ofNat]
  rw [show 24 % 2 ^ 32 % 32 = 24 from rfl, show 16 % 2 ^ 32 % 32 = 16 from rfl,
    show 8 % 2 ^ 32 % 32 = 8 from rfl]
  simp only [Nat.shiftRight_eq_div_pow, Nat.shiftLeft_eq]
  rw [Nat.mod_eq_of_lt (show n.toNat / 2 ^ 24 % 2 ^ 8 * 2 ^ 24 < 2 ^ 32 by omega),
    Nat.mod_eq_of_lt (show n.toNat / 2 ^ 16 % 2 ^ 8 * 2 ^ 16 < 2 ^ 32 by omega),
    Nat.mod_eq_of_lt (show n.toNat / 2 ^ 8 % 2 ^ 8 * 2 ^ 8 < 2 ^ 32 by omega)]
  rw [Nat.mul_comm (n.toNat / 2 ^ 24 % 2 ^ 8), Nat.or_assoc, Nat.or_assoc,
    Nat.mul_comm (n.toNat / 2 ^ 16 % 2 ^ 8), Nat.mul_comm (n.toNat / 2 ^ 8 % 2 ^ 8),
    ← Nat.two_pow_add_eq_or_of_lt (i := 8) (by omega),
    ← Nat.two_pow_add_eq_or_of_lt (i := 16) (by omega),
    ← Nat.two_pow_add_eq_or_of_lt (i := 24) (by omega)]
  omega

theorem toNat_length16 {α : Type} {xs : List α} (h : xs.length ≤ 65535) :
    (length16 xs).toNat = xs.length := by
  rw [length16, UInt16.toNat_ofNat']
  exact Nat.mod_eq_of_lt (by omega)

/-- What is as long as a number of two bytes says has this number for its length. -/
theorem length16_of_length_eq {α : Type} {xs : List α} {n : UInt16} (h : xs.length = n.toNat) :
    length16 xs = n ∧ xs.length ≤ 65535 := by
  have hn := n.toNat_lt
  refine ⟨?_, by omega⟩
  rw [length16, h, UInt16.ofNat_toNat]

end Bytes

namespace Decoder

variable {α β : Type} {d : Decoder α} {f : α → Decoder β} {offset : Nat} {bytes bytes' : Bytes}
  {x : α} {y : β}

/-! ## Decoders on the bytes of a value -/

/-- **A decoder reads a value** from bytes that stand at an offset, and leaves what follows. -/
def ReadsAt (d : Decoder α) (offset : Nat) (bytes : Bytes) (x : α) : Prop :=
  ∀ rest, d ⟨offset, bytes ++ rest⟩ = .ok x ⟨offset + bytes.length, rest⟩

namespace ReadsAt

theorem pure (x : α) : ReadsAt (Pure.pure x) offset [] x :=
  fun _ => rfl

/-- **Reading one behind the other.** -/
theorem bind (hd : ReadsAt d offset bytes x) (hf : ReadsAt (f x) (offset + bytes.length) bytes' y) :
    ReadsAt (d >>= f) offset (bytes ++ bytes') y := by
  intro rest
  refine Outcome.bind_run_ok.2 ⟨x, _, by rw [List.append_assoc]; exact hd _, ?_⟩
  rw [hf rest, List.length_append, Nat.add_assoc]

/-- What is read last may be made into something else. -/
theorem map (g : α → β) (hd : ReadsAt d offset bytes x) :
    ReadsAt (do return g (← d)) offset bytes (g x) := by
  have h := hd.bind (f := fun x => Pure.pure (g x)) (ReadsAt.pure (g x))
  rwa [List.append_nil] at h

theorem u8 (a : UInt8) : ReadsAt Decoder.u8 offset [a] a :=
  fun _ => rfl

theorem u16 (n : UInt16) : ReadsAt Decoder.u16 offset (Bytes.be16 n) n := by
  intro rest
  change EStateM.Result.ok (Bytes.ofBe16 _ _) _ = _
  rw [Bytes.ofBe16_be16]
  rfl

theorem u32 (n : UInt32) : ReadsAt Decoder.u32 offset (Bytes.be32 n) n := by
  intro rest
  change EStateM.Result.ok (Bytes.ofBe32 _ _ _ _) _ = _
  rw [Bytes.ofBe32_be32]
  rfl

theorem i8 (n : Int8) : ReadsAt Decoder.i8 offset [n.toUInt8] n :=
  (u8 n.toUInt8).map UInt8.toInt8

theorem i16 (n : Int16) : ReadsAt Decoder.i16 offset (Bytes.be16 n.toUInt16) n :=
  (u16 n.toUInt16).map UInt16.toInt16

theorem i32 (n : Int32) : ReadsAt Decoder.i32 offset (Bytes.be32 n.toUInt32) n :=
  (u32 n.toUInt32).map UInt32.toInt32

/-- Asking for the offset takes nothing. -/
theorem from_offset {f : Nat → Decoder β} (h : ReadsAt (f offset) offset bytes y) :
    ReadsAt (Decoder.offset >>= f) offset bytes y :=
  h

/-- One byte, and then the others. -/
theorem from_u8 {f : UInt8 → Decoder β} {a : UInt8}
    (h : ReadsAt (f a) (offset + 1) bytes y) :
    ReadsAt (Decoder.u8 >>= f) offset (a :: bytes) y :=
  (u8 a).bind h

theorem skip (bytes : Bytes) : ReadsAt (Decoder.skip bytes.length) offset bytes () := by
  intro rest
  unfold Decoder.skip
  refine Outcome.bind_run_ok.2 ⟨bytes, ⟨offset + bytes.length, rest⟩, ?_, rfl⟩
  unfold Decoder.take
  simp

/-! ## Several values -/

/-- Values read one behind the other, each as what its bytes stand for. -/
theorem times_forall₂ {γ : Type} {enc : γ → Bytes} {xs : List γ} {ys : List α}
    (h : List.Forall₂ (fun x y => ∀ offset, ReadsAt d offset (enc x) y) xs ys) :
    ReadsAt (Decoder.times xs.length d) offset (xs.flatMap enc) ys := by
  -- the values read before stand in reverse in front of those to come
  have honto : ∀ acc offset,
      ReadsAt (timesOnto d acc xs.length) offset (xs.flatMap enc) (acc.reverse ++ ys) := by
    induction h with
    | nil =>
      intro acc offset
      rw [List.append_nil]
      exact .pure acc.reverse
    | cons hx _ ih =>
      intro acc offset
      rw [List.flatMap_cons, List.append_cons, ← List.reverse_cons]
      exact (hx offset).bind (ih _ _)
  exact honto [] offset

/-- Values read one behind the other, each from the bytes of what it is made of. -/
theorem times_map {γ : Type} {enc : γ → Bytes} {g : γ → α} (xs : List γ)
    (h : ∀ x ∈ xs, ∀ offset, ReadsAt d offset (enc x) (g x)) :
    ReadsAt (Decoder.times xs.length d) offset (xs.flatMap enc) (xs.map g) :=
  times_forall₂ (List.forall₂_map_right_iff.2 (List.forall₂_same.2 h))

/-- Values read one behind the other. -/
theorem times {enc : α → Bytes} (xs : List α)
    (h : ∀ x ∈ xs, ∀ offset, ReadsAt d offset (enc x) x) :
    ReadsAt (Decoder.times xs.length d) offset (xs.flatMap enc) xs := by
  have hmap : ReadsAt _ offset _ (xs.map fun x => x) := times_map xs h
  rwa [List.map_id'] at hmap

/-- Values read one behind the other, their number in front of them. -/
theorem counted {enc : α → Bytes} (xs : List α) (hlen : xs.length ≤ 65535)
    (h : ∀ x ∈ xs, ∀ offset, ReadsAt d offset (enc x) x) :
    ReadsAt (Decoder.counted d) offset (Bytes.be16 (Bytes.length16 xs) ++ xs.flatMap enc) xs := by
  refine (u16 _).bind ?_
  rw [Bytes.toNat_length16 hlen]
  exact times xs h

/-- **Values read one behind the other, each as what it stands for**, their number in front of
them. -/
theorem counted_forall₂ {γ : Type} {enc : γ → Bytes} {xs : List γ} {ys : List α}
    (hlen : xs.length ≤ 65535)
    (h : List.Forall₂ (fun x y => ∀ offset, ReadsAt d offset (enc x) y) xs ys) :
    ReadsAt (Decoder.counted d) offset (Bytes.be16 (Bytes.length16 xs) ++ xs.flatMap enc) ys := by
  refine (u16 _).bind ?_
  rw [Bytes.toNat_length16 hlen]
  exact times_forall₂ h

/-! ## Look-ups -/

/-- A look-up that succeeds takes nothing. -/
theorem lift {found : Except FormatError α} (h : found = .ok x) :
    ReadsAt (Decoder.lift found) offset [] x := by
  rw [h]
  exact .pure x

/-- An index, and what is looked up by it. -/
theorem found {find : UInt16 → Except FormatError α} {i : UInt16} (h : find i = .ok x) :
    ReadsAt (do Decoder.lift (find (← Decoder.u16))) offset (Bytes.be16 i) x :=
  (ReadsAt.u16 i).bind (.lift h)

/-! ## All of the bytes -/

/-- What a decoder gives for the bytes of a value. -/
theorem run (h : ReadsAt d 0 bytes x) : d.run bytes = .ok x := by
  have hread := h []
  rw [List.append_nil] at hread
  unfold Decoder.run Cursor.start
  rw [hread]

/-- A decoder that reads all bytes is at their end. -/
theorem run_whole {leftOver : Nat → FormatError} (h : ReadsAt d 0 bytes x) :
    (d.whole leftOver).run bytes = .ok x := by
  have hd : d (.start bytes) = .ok x ⟨0 + bytes.length, []⟩ := by
    have := h []
    rwa [List.append_nil] at this
  have hwhole : d.whole leftOver (.start bytes) = .ok x ⟨0 + bytes.length, []⟩ :=
    Outcome.bind_run_ok.2 ⟨x, _, hd, rfl⟩
  unfold Decoder.run
  rw [hwhole]

end ReadsAt

/-! ## What was read -/

/-- **Values read one behind the other**, from one cursor to another. -/
inductive InTurn (d : Decoder α) : Cursor → List α → Cursor → Prop
  | nil (c : Cursor) : InTurn d c [] c
  | cons {c c₁ c' : Cursor} {x : α} {xs : List α} (hd : d c = .ok x c₁) (h : InTurn d c₁ xs c') :
      InTurn d c (x :: xs) c'

namespace InTurn

variable {c c' : Cursor} {xs : List α}

/-- Each value has what the decoder's values have. -/
theorem forall_mem {P : α → Prop} (h : InTurn d c xs c') (hd : ∀ c x c', d c = .ok x c' → P x) :
    ∀ x ∈ xs, P x := by
  induction h with
  | nil => exact List.forall_mem_nil P
  | cons hx _ ih => exact List.forall_mem_cons.2 ⟨hd _ _ _ hx, ih⟩

end InTurn

/-- **As many values as were asked for**, one behind the other. -/
theorem inTurn_of_times {n : Nat} {c c' : Cursor} {xs : List α} (h : times n d c = .ok xs c') :
    InTurn d c xs c' ∧ xs.length = n := by
  -- the values read before stand in reverse in front of those to come
  have honto : ∀ n acc c, timesOnto d acc n c = .ok xs c' →
      ∃ more, xs = acc.reverse ++ more ∧ InTurn d c more c' ∧ more.length = n := by
    intro n
    induction n with
    | zero =>
      intro acc c h
      cases h
      exact ⟨[], (List.append_nil _).symm, .nil _, rfl⟩
    | succ n ih =>
      intro acc c h
      obtain ⟨x, c₁, hx, hrest⟩ := Outcome.bind_run_ok.1 h
      obtain ⟨more, hxs, hmore, hlength⟩ := ih (x :: acc) c₁ hrest
      refine ⟨x :: more, ?_, .cons hx hmore, congrArg (· + 1) hlength⟩
      rw [hxs, List.reverse_cons, List.append_assoc, List.singleton_append]
  obtain ⟨more, rfl, hmore, hlength⟩ := honto n [] c h
  exact ⟨hmore, hlength⟩

/-- The number in front of the values is how many there are. -/
theorem inTurn_of_counted {c c' : Cursor} {xs : List α} (h : counted d c = .ok xs c') :
    ∃ n c₁, u16 c = .ok n c₁ ∧ InTurn d c₁ xs c' ∧ xs.length = n.toNat := by
  obtain ⟨n, c₁, hn, hrest⟩ := Outcome.bind_run_ok.1 h
  exact ⟨n, c₁, hn, inTurn_of_times hrest⟩

/-- A look-up that gave a value found it, and took nothing. -/
theorem of_lift {found : Except FormatError α} {c c' : Cursor} (h : lift found c = .ok x c') :
    found = .ok x ∧ c' = c := by
  cases found <;> cases h
  exact ⟨rfl, rfl⟩

/-- A number was read from its bytes. -/
theorem rest_of_u16 {n : UInt16} {c c' : Cursor} (h : u16 c = .ok n c') :
    c.rest = Bytes.be16 n ++ c'.rest := by
  obtain ⟨offset, _ | ⟨a, _ | ⟨b, rest⟩⟩⟩ := c
  · cases h
  · cases h
  · cases h
    rw [Bytes.be16_ofBe16]
    rfl

theorem rest_of_u8 {a : UInt8} {c c' : Cursor} (h : u8 c = .ok a c') : c.rest = a :: c'.rest := by
  obtain ⟨offset, _ | ⟨a, rest⟩⟩ := c <;> cases h
  rfl

/-- As many bytes were passed over as were asked for. -/
theorem rest_of_skip {n : Nat} {c c' : Cursor} (h : skip n c = .ok () c') :
    ∃ bytes, bytes.length = n ∧ c.rest = bytes ++ c'.rest := by
  obtain ⟨bytes, c₁, htake, hresult⟩ := Outcome.bind_run_ok.1 h
  cases hresult
  unfold take at htake
  dsimp only at htake
  split at htake
  · cases htake
  · next hlength =>
    cases htake
    refine ⟨c.rest.take n, ?_, (List.take_append_drop n c.rest).symm⟩
    have := List.length_take_le n c.rest
    omega

/-- A result that was run comes from a cursor at the start. -/
theorem of_run {x : α} (h : d.run bytes = .ok x) : ∃ c, d (.start bytes) = .ok x c := by
  unfold run at h
  split at h
  · next x' c hd =>
    cases h
    exact ⟨c, hd⟩
  · cases h

end Decoder

end ProxyForge
