import ProxyForge.ClassFile.Frame
import ProxyForge.Proofs.Reading
/-!
# Frames read back

A frame whose counts fit their fields (`Frame.WellFormed`) is read back from its bytes, and so is
a table of such frames (`Frame.decodeTable_encodeTable`). `Frame.compress` gives such frames.
-/

namespace ProxyForge

open Decoder (ReadsAt)

variable {offset : Nat}

theorem VerificationType.reads (t : VerificationType) :
    ReadsAt VerificationType.decode offset t.encode t := by
  cases t with
  | top => exact (ReadsAt.u8 0).bind (.pure top)
  | integer => exact (ReadsAt.u8 1).bind (.pure integer)
  | float => exact (ReadsAt.u8 2).bind (.pure float)
  | double => exact (ReadsAt.u8 3).bind (.pure double)
  | long => exact (ReadsAt.u8 4).bind (.pure long)
  | null => exact (ReadsAt.u8 5).bind (.pure null)
  | uninitializedThis => exact (ReadsAt.u8 6).bind (.pure uninitializedThis)
  | object constant => exact (ReadsAt.u8 7).bind ((ReadsAt.u16 constant).map object)
  | uninitialized at' => exact (ReadsAt.u8 8).bind ((ReadsAt.u16 at').map uninitialized)

namespace Frame

variable {delta : UInt16} {f : Frame}

/-- **A frame whose counts fit their fields.** -/
def WellFormed : Frame → Prop
  | same _ => True
  | sameWithItem _ _ => True
  | chop _ count => 1 ≤ count.toNat ∧ count.toNat ≤ 3
  | append _ locals => 1 ≤ locals.length ∧ locals.length ≤ 3
  | full _ locals stack => locals.length ≤ 65535 ∧ stack.length ≤ 65535

/-! ## Bytes -/

/-- A small delta is the tag itself. -/
theorem toUInt8_of_small (h : delta ≤ 63) :
    delta.toUInt8.toNat = delta.toNat ∧ delta.toUInt8.toUInt16 = delta := by
  have hnat : delta.toNat ≤ 63 := UInt16.le_iff_toNat_le.1 h
  have heq : delta.toUInt8.toNat = delta.toNat := by
    rw [UInt16.toNat_toUInt8]
    omega
  exact ⟨heq, UInt16.toNat.inj (by rw [UInt8.toNat_toUInt16, heq])⟩

theorem reads_same (delta : UInt16) : ReadsAt decode offset (same delta).encode (same delta) := by
  rw [encode]
  split
  · rename_i hsmall
    obtain ⟨hnat, heq⟩ := toUInt8_of_small hsmall
    have hle : delta.toUInt8 ≤ 63 := by
      rw [UInt8.le_iff_toNat_le, hnat]
      exact UInt16.le_iff_toNat_le.1 hsmall
    refine (ReadsAt.u8 delta.toUInt8).bind ?_
    rw [if_pos hle, heq]
    exact .pure _
  · refine (ReadsAt.u8 251).bind ?_
    rw [if_neg (by decide), if_neg (by decide), if_neg (by decide)]
    exact (ReadsAt.u16 delta).map same

theorem reads_sameWithItem (delta : UInt16) (item : VerificationType) :
    ReadsAt decode offset (sameWithItem delta item).encode (sameWithItem delta item) := by
  rw [encode]
  split
  · rename_i hsmall
    obtain ⟨hnat, heq⟩ := toUInt8_of_small hsmall
    have hle : delta.toNat ≤ 63 := UInt16.le_iff_toNat_le.1 hsmall
    have htag : (64 + delta.toUInt8).toNat = 64 + delta.toNat := by
      rw [UInt8.toNat_add, hnat]
      exact Nat.mod_eq_of_lt (by simp; omega)
    -- the tag is the delta above 64, and falls in the second range
    have hback : 64 + delta.toUInt8 - 64 = delta.toUInt8 := by
      rw [UInt8.add_comm, UInt8.add_sub_cancel]
    have hmore : ¬ 64 + delta.toUInt8 ≤ 63 := by
      rw [UInt8.le_iff_toNat_le, htag]
      simp
      omega
    have hless : 64 + delta.toUInt8 ≤ 127 := by
      rw [UInt8.le_iff_toNat_le, htag]
      simp
      omega
    refine (ReadsAt.u8 (64 + delta.toUInt8)).bind ?_
    rw [if_neg hmore, if_pos hless, hback, heq]
    exact item.reads.map (sameWithItem delta)
  · refine (ReadsAt.u8 247).bind ?_
    rw [if_neg (by decide), if_neg (by decide), if_neg (by decide)]
    refine (ReadsAt.u16 delta).bind ?_
    rw [if_pos rfl]
    exact item.reads.map (sameWithItem delta)

theorem reads_chop {count : UInt8} (h : (chop delta count).WellFormed) :
    ReadsAt decode offset (chop delta count).encode (chop delta count) := by
  obtain ⟨hpos, hle⟩ := h
  have hcount : count = 1 ∨ count = 2 ∨ count = 3 := by
    rcases (show count.toNat = 1 ∨ count.toNat = 2 ∨ count.toNat = 3 by omega) with h | h | h
    · exact .inl (UInt8.toNat.inj h)
    · exact .inr (.inl (UInt8.toNat.inj h))
    · exact .inr (.inr (UInt8.toNat.inj h))
  -- each count has a tag of its own
  rcases hcount with rfl | rfl | rfl
  · exact (ReadsAt.u8 250).bind ((ReadsAt.u16 delta).map fun delta => chop delta 1)
  · exact (ReadsAt.u8 249).bind ((ReadsAt.u16 delta).map fun delta => chop delta 2)
  · exact (ReadsAt.u8 248).bind ((ReadsAt.u16 delta).map fun delta => chop delta 3)

theorem reads_types (types : List VerificationType) (offset : Nat) :
    ReadsAt (Decoder.times types.length VerificationType.decode) offset (encodeTypes types)
      types :=
  ReadsAt.times types fun t _ _ => t.reads

theorem reads_append {locals : List VerificationType} (h : (append delta locals).WellFormed) :
    ReadsAt decode offset (append delta locals).encode (append delta locals) := by
  obtain ⟨hpos, hle⟩ := h
  have htypes := reads_types locals
  rw [encode]
  rcases (show locals.length = 1 ∨ locals.length = 2 ∨ locals.length = 3 by omega)
    with hlen | hlen | hlen
  all_goals rw [hlen] at htypes ⊢
  · exact (ReadsAt.u8 252).bind ((ReadsAt.u16 delta).bind ((htypes _).map (append delta)))
  · exact (ReadsAt.u8 253).bind ((ReadsAt.u16 delta).bind ((htypes _).map (append delta)))
  · exact (ReadsAt.u8 254).bind ((ReadsAt.u16 delta).bind ((htypes _).map (append delta)))

theorem reads_full {locals stack : List VerificationType}
    (h : (full delta locals stack).WellFormed) :
    ReadsAt decode offset (full delta locals stack).encode (full delta locals stack) := by
  obtain ⟨hlocals, hstack⟩ := h
  have hread : ∀ (types : List VerificationType), types.length ≤ 65535 → ∀ offset,
      ReadsAt (Decoder.counted VerificationType.decode) offset
        (Bytes.be16 (Bytes.length16 types) ++ encodeTypes types) types :=
    fun types hlen _ => ReadsAt.counted types hlen fun t _ _ => t.reads
  rw [encode]
  simp only [List.cons_append, List.append_assoc]
  rw [← List.append_assoc (Bytes.be16 (Bytes.length16 locals))]
  exact (ReadsAt.u8 255).bind ((ReadsAt.u16 delta).bind ((hread locals hlocals _).bind
    ((hread stack hstack _).map (full delta locals))))

/-- **A frame is read back from its bytes.** -/
theorem reads (h : f.WellFormed) : ReadsAt decode offset f.encode f := by
  cases f with
  | same delta => exact reads_same delta
  | sameWithItem delta item => exact reads_sameWithItem delta item
  | chop => exact reads_chop h
  | append => exact reads_append h
  | full => exact reads_full h

/-- **A table of frames is read back from its bytes.** -/
theorem decodeTable_encodeTable {frames : List Frame} (hlen : frames.length ≤ 65535)
    (h : ∀ f ∈ frames, f.WellFormed) : decodeTable (encodeTable frames) = .ok frames :=
  ReadsAt.run_whole (ReadsAt.counted frames hlen fun f hf _ => reads (h f hf))

/-! ## Compressed frames -/

variable {before locals stack : List VerificationType}

theorem wellFormed_compress (hlocals : locals.length ≤ 65535) (hstack : stack.length ≤ 65535) :
    (compress before locals stack delta).WellFormed := by
  unfold compress
  split
  · trivial
  · trivial
  · split
    · -- the count is small, so nothing of it is cut off
      rename_i hchop
      simp only [Bool.and_eq_true, decide_eq_true_eq] at hchop
      have hcount : (UInt8.ofNat (before.length - locals.length)).toNat =
          before.length - locals.length := by
        rw [UInt8.toNat_ofNat']
        exact Nat.mod_eq_of_lt (by omega)
      exact ⟨by omega, by omega⟩
    · split
      · rename_i happend
        simp only [Bool.and_eq_true, decide_eq_true_eq] at happend
        refine ⟨?_, ?_⟩ <;> rw [List.length_drop] <;> omega
      · exact ⟨hlocals, hstack⟩

@[simp] theorem delta_compress (before locals stack : List VerificationType) (delta : UInt16) :
    (compress before locals stack delta).delta = delta := by
  unfold compress
  repeat' split
  all_goals rfl

end Frame

end ProxyForge
