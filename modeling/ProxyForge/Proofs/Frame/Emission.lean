import ProxyForge.Proofs.Frame.Slots
/-!
# Frames of a search

`VerifierInfo.framesFrom` goes through positions in ascending order and writes a frame for each.
`framesFrom_ok`: the frames stand at the offsets of the positions, replayed in order they show what
is known there, and they are well-formed if that fits into them.
-/

namespace ProxyForge

namespace Code

open Outcome
open ProxyForge.Frame (ReadAs)
open SlotType (top spread)
open TypeState (slotAt)

variable {c : Context} {s : Search} {b b' : PoolBuilder} {made : Nat → Option String}
  {slots values : List SlotType} {types : List VerificationType} {t : TypeState}

/-! ## What a frame shows -/

/-- The state that a frame with locals and a stack stands for; in the frame the bottom of the
stack comes first. -/
def shownState (shown : List SlotType × List SlotType) : TypeState :=
  ⟨spread shown.1, shown.2.reverse⟩

/-- **Two states agree**: on the stack, and on every local variable. -/
structure TypeState.Agrees (s t : TypeState) : Prop where
  locals : ∀ i, slotAt s.locals i = slotAt t.locals i
  stack : s.stack = t.stack

theorem TypeState.Agrees.le {s t : TypeState} (h : s.Agrees t) : s ≤ t :=
  ⟨fun i => le_of_eq (h.locals i), h.stack ▸ List.forall₂_refl _⟩

theorem TypeState.Agrees.ge {s t : TypeState} (h : s.Agrees t) : t ≤ s :=
  ⟨fun i => le_of_eq (h.locals i).symm, h.stack ▸ List.forall₂_refl _⟩

/-- **What is needed of a state to be written to a frame.** -/
structure Writable (made : Nat → Option String) (t : TypeState) : Prop where
  paired : t.Paired
  named : ∀ v, t.Holds v → v.Named made

/-- The numbers of local variables and of values on the stack fit into sixteen bits. -/
def TypeState.Fits (t : TypeState) : Prop :=
  t.locals.length ≤ 65535 ∧ t.stack.length ≤ 65535

/-- Offsets ascend, and they fit into sixteen bits. -/
structure Context.Ascends (c : Context) : Prop where
  lt_of_lt : ∀ {i j : Nat}, i < j → j < c.ops.size → c.offsetAt i < c.offsetAt j
  le_limit : ∀ i, c.offsetAt i ≤ 65535

theorem Context.Ascends.inj (hc : c.Ascends) {i j : Nat} (hi : i < c.ops.size)
    (hj : j < c.ops.size) (h : c.offsetAt i = c.offsetAt j) : i = j := by
  rcases Nat.lt_trichotomy i j with hij | hij | hij
  · exact absurd h (Nat.ne_of_lt (hc.lt_of_lt hij hj))
  · exact hij
  · exact absurd h.symm (Nat.ne_of_lt (hc.lt_of_lt hij hi))

namespace VerifierInfo

/-! ## One frame -/

/-- **Compacted locals** say what the slots are, but for unknown ones at the end. -/
theorem compact_ok (hnamed : ∀ t ∈ slots, t.Named made)
    (hpaired : ∀ i, TypeState.isWideAt slots i → slots[i + 1]? = some top)
    (h : compact slots b = .ok types b') : b.Grows b' ∧ types.length ≤ slots.length ∧
      ∃ values n, ReadAs (VerificationType.slot b'.pool made) types values ∧
        slots = spread (values ++ List.replicate n top) := by
  obtain ⟨written, b₁, hwritten, hresult⟩ := bind_run_ok.1 h
  cases hresult
  obtain ⟨hgrows, hread⟩ := SlotType.readAs_of_mapM hnamed hwritten
  obtain ⟨values, n, hvalues, hslots⟩ := SlotType.readAs_compactLocals hread hpaired
  refine ⟨hgrows, ?_, values, n, hvalues, hslots⟩
  rw [← hread.length_eq]
  exact VerificationType.length_compactLocals_le written

/-- **The types of one frame** show the state, and they fit into a frame if it does. -/
theorem types_ok {localTypes stackTypes : List VerificationType} {b₁ b₂ : PoolBuilder}
    (hwritable : Writable made t) (hlocals : compact t.locals b = .ok localTypes b₁)
    (hstack : t.stack.reverse.mapM SlotType.verification b₁ = .ok stackTypes b₂) :
    b.Grows b₂ ∧ ∃ locals, ReadAs (VerificationType.slot b₂.pool made) localTypes locals ∧
      ReadAs (VerificationType.slot b₂.pool made) stackTypes t.stack.reverse ∧
      (shownState (locals, t.stack.reverse)).Agrees t ∧
      (t.Fits → localTypes.length ≤ 65535 ∧ stackTypes.length ≤ 65535) := by
  obtain ⟨hgrows₁, hlen, locals, n, hread, hslots⟩ :=
    compact_ok (fun v hv => hwritable.named v (.inl hv)) hwritable.paired.locals hlocals
  obtain ⟨hgrows₂, hreadStack⟩ := SlotType.readAs_of_mapM
    (fun v hv => hwritable.named v (.inr (List.mem_reverse.1 hv))) hstack
  refine ⟨hgrows₁.trans hgrows₂, locals, VerificationType.readAs_of_grows hgrows₂ hread,
    hreadStack, ⟨fun i => ?_, List.reverse_reverse _⟩, fun hfits => ⟨le_trans hlen hfits.1, ?_⟩⟩
  · rw [hslots, SlotType.spread_append, SlotType.spread_replicate_top,
      SlotType.slotAt_append_tops]
    rfl
  · rw [hreadStack.length_eq, List.length_reverse]
    exact hfits.2

theorem onlyFull_compact (slots : List SlotType) : Interner.OnlyFull (compact slots) :=
  (Interner.OnlyFull.mapM SlotType.onlyFull_verification slots).bind fun _ => .pure _

/-- The delta of a frame leads to its offset. -/
theorem offsetAfter_deltaTo {f : Frame} {offset : Nat} {last : Option Nat}
    (hdelta : f.delta = deltaTo offset last) (hoffset : offset ≤ 65535)
    (hlast : ∀ l, last = some l → l < offset) :
    Frame.offsetAfter (last.map UInt32.ofNat) f = UInt32.ofNat offset := by
  apply UInt32.toNat.inj
  cases last with
  | none =>
    simp only [Option.map_none, Frame.offsetAfter, hdelta, deltaTo, UInt16.toNat_toUInt32,
      UInt16.toNat_ofNat', UInt32.toNat_ofNat']
    omega
  | some l =>
    have hl := hlast l rfl
    simp only [Option.map_some, Frame.offsetAfter, hdelta, deltaTo, UInt32.toNat_add,
      UInt16.toNat_toUInt32, UInt16.toNat_ofNat', UInt32.toNat_ofNat']
    have hone : (1 : UInt32).toNat = 1 := rfl
    omega

/-! ## All frames -/

/-- **The frames at ascending positions** stand at the offsets of the positions and show what is
known there, and they are well-formed if what they show fits. -/
theorem framesFrom_ok {acc frames : List Frame} {last : Option Nat} {positions : List Nat}
    (hc : c.Ascends)
    (hknown : ∀ p ∈ positions, p < c.ops.size ∧ ∃ t, s.stateAt p = some t ∧ Writable made t)
    (hsorted : positions.Pairwise (· < ·))
    (hlast : ∀ l, last = some l → ∀ p ∈ positions, l < c.offsetAt p)
    (hbefore : ReadAs (VerificationType.slot b.pool made) types values)
    (h : framesFrom c s acc types last positions b = .ok frames b') :
    b.Grows b' ∧ ∃ fs, frames = acc.reverse ++ fs ∧
      ((∀ p ∈ positions, (s.knownAt p).Fits) → ∀ f ∈ fs, f.WellFormed) ∧
      Frame.offsetsAfter (last.map UInt32.ofNat) fs =
        positions.map (fun p => UInt32.ofNat (c.offsetAt p)) ∧
      ∃ shown, Frame.replay (VerificationType.slot b'.pool made) values fs = some shown ∧
        List.Forall₂ (fun p sh => (shownState sh).Agrees (s.knownAt p)) positions shown := by
  induction positions generalizing acc last types values b with
  | nil =>
    cases h
    exact ⟨.refl _, [], by simp, fun _ => nofun, rfl, [], rfl, .nil⟩
  | cons p positions ih =>
    obtain ⟨hp, t, ht, hwritable⟩ := hknown p List.mem_cons_self
    unfold framesFrom at h
    rw [ht] at h
    obtain ⟨localTypes, b₁, hlocals, hrest⟩ := bind_run_ok.1 h
    obtain ⟨stackTypes, b₂, hstack, hrest₂⟩ := bind_run_ok.1 hrest
    obtain ⟨hgrows₁, locals, hread, hreadStack, hagrees, hfit⟩ :=
      types_ok hwritable hlocals hstack
    have hknownAt := Search.knownAt_of_stateAt ht
    -- the frames behind it are relative to it
    have hsorted' := List.pairwise_cons.1 hsorted
    obtain ⟨hgrows₂, fs, hframes, hformed, hoffsets, shown, hreplay, hshown⟩ :=
      ih (fun q hq => hknown q (List.mem_cons_of_mem p hq)) hsorted'.2
        (fun l hl q hq => by
          cases hl
          exact hc.lt_of_lt (hsorted'.1 q hq) (hknown q (List.mem_cons_of_mem p hq)).1)
        hread hrest₂
    have hgrows := hgrows₁.trans hgrows₂
    refine ⟨hgrows, Frame.compress types localTypes stackTypes (deltaTo (c.offsetAt p) last) :: fs,
      by simp [hframes], ?_, ?_, (locals, t.stack.reverse) :: shown, ?_,
      .cons (hknownAt.symm ▸ hagrees) hshown⟩
    · intro hfits f hf
      rcases List.mem_cons.1 hf with rfl | hf
      · obtain ⟨hlocalsFit, hstackFits⟩ := hfit (hknownAt ▸ hfits p List.mem_cons_self)
        exact Frame.wellFormed_compress hlocalsFit hstackFits
      · exact hformed (fun q hq => hfits q (List.mem_cons_of_mem p hq)) f hf
    · have hoffset := offsetAfter_deltaTo (Frame.delta_compress types localTypes stackTypes _)
        (hc.le_limit p) fun l hl => hlast l hl p List.mem_cons_self
      rw [List.map_cons, ← hoffsets]
      simp only [Frame.offsetsAfter, hoffset, Option.map_some]
    · -- what was read in a smaller pool is read in the last one
      have hreadBefore := VerificationType.readAs_of_grows hgrows hbefore
      have hreadLocals := VerificationType.readAs_of_grows hgrows₂ hread
      have hreadStack' := VerificationType.readAs_of_grows hgrows₂ hreadStack
      simp only [Frame.replay, Frame.localsBehind_compress hreadBefore hreadLocals,
        Frame.stackOf_compress hreadStack', hreplay, Option.bind_eq_bind, Option.bind_some]
      rfl

theorem onlyFull_framesFrom (c : Context) (s : Search) (acc : List Frame)
    (before : List VerificationType) (last : Option Nat) (positions : List Nat) :
    Interner.OnlyFull (framesFrom c s acc before last positions) := by
  induction positions generalizing acc before last with
  | nil => exact .pure _
  | cons p positions ih =>
    unfold framesFrom
    split
    · exact ih acc before last
    · exact (onlyFull_compact _).bind fun _ =>
        (Interner.OnlyFull.mapM SlotType.onlyFull_verification _).bind fun _ => ih _ _ _

end VerifierInfo

end Code

end ProxyForge
