import ProxyForge.Proofs.Frame.Emission
/-!
# Whole tables of frames

`Frame.compressTable` writes what is known at ascending offsets as frames, each against the locals
of the one in front of it. Nothing is lost: the bytes are read back as these frames, and their
offsets, locals and stacks are the ones that were given (`Frame.compressTable_lossless`). What a
search writes is such a table (`Code.VerifierInfo.framesFrom_eq_compressAfter`).
-/

namespace ProxyForge

namespace Frame

open Code.VerifierInfo (deltaTo offsetAfter_deltaTo)

/-- **What is known at an offset**, with no more locals and stack entries than sixteen bits can
count. -/
structure Snapshot where
  offset : UInt16
  locals : List VerificationType
  stack : List VerificationType
  locals_le : locals.length ≤ 65535
  stack_le : stack.length ≤ 65535

variable {before : List VerificationType} {last : Option Nat} {table : List Snapshot}

/-- The frames of a table, behind a frame with the locals `before` at the offset `last`. -/
def compressAfter (before : List VerificationType) (last : Option Nat) :
    List Snapshot → List Frame
  | [] => []
  | s :: rest =>
    compress before s.locals s.stack (deltaTo s.offset.toNat last) ::
      compressAfter s.locals (some s.offset.toNat) rest

/-- **The frames of a table** of a method that starts with the locals `initial`. -/
def compressTable (initial : List VerificationType) (table : List Snapshot) : List Frame :=
  compressAfter initial none table

/-- The offsets ascend from the one in front of the table. -/
def Ascending (last : Option Nat) (table : List Snapshot) : Prop :=
  (∀ l ∈ last, ∀ s ∈ table, l < s.offset.toNat) ∧ table.Pairwise (·.offset < ·.offset)

/-- The rest of an ascending table ascends from its head. -/
theorem Ascending.tail {s : Snapshot} (h : Ascending last (s :: table)) :
    Ascending (some s.offset.toNat) table := by
  obtain ⟨hhead, htail⟩ := List.pairwise_cons.1 h.2
  refine ⟨fun l hl t ht => ?_, htail⟩
  cases hl
  exact UInt16.lt_iff_toNat_lt.1 (hhead t ht)

theorem length_compressAfter (before : List VerificationType) (last : Option Nat)
    (table : List Snapshot) : (compressAfter before last table).length = table.length := by
  induction table generalizing before last with
  | nil => rfl
  | cons s rest ih => exact congrArg (· + 1) (ih s.locals _)

theorem wellFormed_compressAfter {f : Frame} (hf : f ∈ compressAfter before last table) :
    f.WellFormed := by
  induction table generalizing before last with
  | nil => exact absurd hf List.not_mem_nil
  | cons s rest ih =>
    rcases List.mem_cons.1 hf with rfl | hf
    · exact wellFormed_compress s.locals_le s.stack_le
    · exact ih hf

/-- The offsets are added up to the ones that were given. -/
theorem offsetsAfter_compressAfter (before : List VerificationType) (h : Ascending last table) :
    offsetsAfter (last.map UInt32.ofNat) (compressAfter before last table) =
      table.map fun s => UInt32.ofNat s.offset.toNat := by
  induction table generalizing before last with
  | nil => rfl
  | cons s rest ih =>
    have hoffset := offsetAfter_deltaTo
      (delta_compress before s.locals s.stack (deltaTo s.offset.toNat last))
      (Nat.le_of_lt_succ s.offset.toNat_lt) fun l hl => h.1 l hl s List.mem_cons_self
    rw [List.map_cons, ← ih s.locals h.tail]
    simp only [compressAfter, offsetsAfter, hoffset, Option.map_some]

/-- Replayed in order, each frame shows the locals that the next one was compressed against. -/
theorem replay_compressAfter (before : List VerificationType) (last : Option Nat)
    (table : List Snapshot) :
    replay some before (compressAfter before last table) =
      some (table.map fun s => (s.locals, s.stack)) := by
  have hself : ∀ types : List VerificationType, ReadAs some types types :=
    fun types => List.forall₂_same.2 fun _ _ => rfl
  induction table generalizing before last with
  | nil => rfl
  | cons s rest ih =>
    simp only [compressAfter, replay, localsBehind_compress (hself before) (hself s.locals),
      stackOf_compress (hself s.stack), ih, Option.bind_eq_bind, Option.bind_some, List.map_cons]
    rfl

/-- **Compression loses nothing.** A table of at most 65535 snapshots at ascending offsets is
written as frames that are read back from their bytes, stand at the offsets of the snapshots, and
replayed from the same initial locals show the locals and the stack of each. -/
theorem compressTable_lossless (initial : List VerificationType) (table : List Snapshot)
    (hlen : table.length ≤ 65535) (hsorted : table.Pairwise (·.offset < ·.offset)) :
    ∃ frames, decodeTable (encodeTable (compressTable initial table)) = .ok frames ∧
      (offsets frames).map UInt32.toNat = table.map (·.offset.toNat) ∧
      replay some initial frames = some (table.map fun s => (s.locals, s.stack)) := by
  refine ⟨compressTable initial table, decodeTable_encodeTable ?_ ?_, ?_,
    replay_compressAfter initial none table⟩
  · exact (length_compressAfter initial none table).trans_le hlen
  · exact fun f hf => wellFormed_compressAfter hf
  · have hascending : Ascending none table := ⟨fun _ hl => (nomatch hl), hsorted⟩
    have hoffsets : offsets (compressTable initial table) =
        table.map fun s => UInt32.ofNat s.offset.toNat :=
      offsetsAfter_compressAfter initial hascending
    rw [hoffsets, List.map_map]
    refine List.map_congr_left fun s _ => ?_
    have := s.offset.toNat_lt
    rw [Function.comp_apply, UInt32.toNat_ofNat']
    omega

/-- A local more, the same ones with a value on the stack, and one less, far behind. -/
theorem compressTable_lossless_three :
    ∃ frames, decodeTable (encodeTable (compressTable [.top]
        [⟨3, [.top, .integer], [], by decide, by decide⟩,
          ⟨67, [.top, .integer], [.long], by decide, by decide⟩,
          ⟨400, [.top], [], by decide, by decide⟩])) = .ok frames ∧
      (offsets frames).map UInt32.toNat = [3, 67, 400] ∧
      replay some [.top] frames =
        some [([.top, .integer], []), ([.top, .integer], [.long]), ([.top], [])] :=
  compressTable_lossless [.top] _ (by decide)
    (by simp only [List.pairwise_cons]; decide)

end Frame

/-! ## The frames of a search -/

namespace Code

namespace VerifierInfo

open ProxyForge.Frame (Snapshot compressAfter)

variable {c : Context} {s : Search} {b b' : PoolBuilder} {acc frames : List Frame}
  {before : List VerificationType} {last : Option Nat} {positions : List Nat}

/-- Slots are compacted to no more types than there are slots. -/
theorem length_compact_le {slots : List SlotType} {types : List VerificationType}
    (h : compact slots b = .ok types b') : types.length ≤ slots.length := by
  obtain ⟨written, b₁, hwritten, hresult⟩ := Outcome.bind_run_ok.1 h
  cases hresult
  exact (VerificationType.length_compactLocals_le written).trans_eq
    (Outcome.length_of_mapM_run hwritten)

/-- **The frames of a search are such a table**: a snapshot for each position that is reached, at
the offset of it. -/
theorem framesFrom_eq_compressAfter (hoffset : ∀ p ∈ positions, c.offsetAt p ≤ 65535)
    (hfits : ∀ p ∈ positions, ∀ t, s.stateAt p = some t → t.Fits)
    (h : framesFrom c s acc before last positions b = .ok frames b') :
    ∃ table : List Snapshot, frames = acc.reverse ++ compressAfter before last table ∧
      table.map (·.offset.toNat) =
        (positions.filter fun p => (s.stateAt p).isSome).map c.offsetAt := by
  induction positions generalizing acc before last b with
  | nil =>
    cases h
    exact ⟨[], (List.append_nil _).symm, rfl⟩
  | cons p positions ih =>
    have hoffset' := fun q hq => hoffset q (List.mem_cons_of_mem p hq)
    have hfits' := fun q hq => hfits q (List.mem_cons_of_mem p hq)
    unfold framesFrom at h
    cases ht : s.stateAt p with
    | none =>
      rw [ht] at h
      obtain ⟨table, hframes, hoffsets⟩ := ih hoffset' hfits' h
      exact ⟨table, hframes, by rw [hoffsets, List.filter_cons_of_neg (by simp [ht])]⟩
    | some t =>
      rw [ht] at h
      obtain ⟨localTypes, b₁, hlocals, hrest⟩ := Outcome.bind_run_ok.1 h
      obtain ⟨stackTypes, b₂, hstack, hrest₂⟩ := Outcome.bind_run_ok.1 hrest
      obtain ⟨table, hframes, hoffsets⟩ := ih hoffset' hfits' hrest₂
      have hfit := hfits p List.mem_cons_self t ht
      have hstackLength := Outcome.length_of_mapM_run hstack
      rw [List.length_reverse] at hstackLength
      have hnat : (UInt16.ofNat (c.offsetAt p)).toNat = c.offsetAt p :=
        UInt16.toNat_ofNat_of_lt' (Nat.lt_succ_of_le (hoffset p List.mem_cons_self))
      refine ⟨⟨UInt16.ofNat (c.offsetAt p), localTypes, stackTypes,
        (length_compact_le hlocals).trans hfit.1, hstackLength.trans_le hfit.2⟩ :: table, ?_, ?_⟩
      · simp only [hframes, compressAfter, hnat, List.reverse_cons, List.append_assoc,
          List.singleton_append]
      · rw [List.filter_cons_of_pos (by simp [ht]), List.map_cons, List.map_cons, hoffsets, hnat]

end VerifierInfo

end Code

end ProxyForge
