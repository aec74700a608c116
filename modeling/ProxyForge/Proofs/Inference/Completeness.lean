import ProxyForge.Proofs.Frame.StackMap
/-!
# Completeness of the inference

The inference of frames rejects no code that has a typing and in which control may come to every
instruction; it can only run out of constants for the classes in the frames. What the frames say
lies below every typing. `frames_complete` proves this and the converse: code that is accepted
has a typing.
-/

namespace ProxyForge

namespace Code

open VerifierInfo (ofProgram framesOf)

variable {m : MethodHeader} {body : Body} {p : Program} {l : Layout} {e : TypeState}

/-- A body that is laid out has as many instructions as its program. -/
theorem LaidOut.size_pos (hl : LaidOut m body p l) (hne : body.ops ≠ []) : 0 < p.ops.size :=
  Program.size_pos_of_resolve hl.resolve hne

/-- **The search succeeds** on a body with a typing, and finds what lies below every typing. -/
theorem LaidOut.infer_of_typing (hl : LaidOut m body p l) (he : TypeState.entry m = .ok e)
    (hsize : 0 < p.ops.size) {known : Nat → TypeState}
    (hk : (p.context m l.offsets).Typing e known) (hin : (p.context m l.offsets).StaysInside)
    (hall : ∀ i < p.ops.size, (p.context m l.offsets).Reachable i) :
    ∃ s, Search.infer (p.context m l.offsets) e = .ok s ∧
      ∀ i < p.ops.size, s.knownAt i ≤ known i :=
  Search.infer_of_typing hk hl.valid hin
    (Context.reachesBelow_max _ _) hsize
    (TypeState.paired_entry he) (by rw [TypeState.entry_ok he]) (le_max_left _ _) (by omega) hall

/-- **The inference is complete, and what it finds is least.** If a typing exists, and control may
come to every instruction and not behind the last one, then either there are too many constants
or there are frames, and each of them is below every typing. If there are frames, then a typing
exists, and control may come to every instruction and not behind the last one. -/
theorem frames_complete (hl : LaidOut m body p l) (hne : body.ops ≠ [])
    (he : TypeState.entry m = .ok e) :
    ((∃ known, (p.context m l.offsets).Typing e known) →
      (∀ i < p.ops.size, (p.context m l.offsets).Reachable i) →
      (p.context m l.offsets).StaysInside → ∀ b,
        (∃ count b', ofProgram m p l.offsets b = .error (.tooManyConstants count) b') ∨
        ∃ info b' table, ofProgram m p l.offsets b = .ok info b' ∧
          frameTable b'.pool (p.context m l.offsets) info.frames = some table ∧
          ∀ known, (p.context m l.offsets).Typing e known → ∀ i < p.ops.size, ∀ t,
            (Layout.offsetAt l.offsets i, t) ∈ table → t ≤ known i) ∧
    ((∃ b info b', ofProgram m p l.offsets b = .ok info b') →
      (∃ known, (p.context m l.offsets).Typing e known) ∧
      (∀ i < p.ops.size, (p.context m l.offsets).Reachable i) ∧
      (p.context m l.offsets).StaysInside) := by
  have hsize := hl.size_pos hne
  constructor
  · rintro ⟨known₀, hk₀⟩ hall hin b
    obtain ⟨s, hs, -⟩ := hl.infer_of_typing he hsize hk₀ hin hall
    cases hrun : ofProgram m p l.offsets b with
    | error err b' =>
      rw [VerifierInfo.ofProgram_eq he hsize hs] at hrun
      obtain ⟨count, rfl⟩ := VerifierInfo.onlyFull_framesOf _ _ _ _ b err b' hrun
      exact .inl ⟨count, b', rfl⟩
    | ok info b' =>
      obtain ⟨e', s', hf⟩ := framed_of_ofProgram hl hrun
      cases he.symm.trans hf.entry
      cases hs.symm.trans hf.infer
      obtain ⟨table, htable, -⟩ := hf.table
      refine .inr ⟨info, b', table, rfl, htable, fun known hk i hi t ht => ?_⟩
      obtain ⟨s'', hs'', hbelow⟩ := hl.infer_of_typing he hsize hk hin hall
      cases hs.symm.trans hs''
      obtain ⟨j, hj, -, hoffset, hagrees⟩ := hf.row htable ht
      obtain rfl := hl.ascends.inj hj hi hoffset
      exact le_trans hagrees.le (hbelow j hj)
  · rintro ⟨b, info, b', hrun⟩
    obtain ⟨e', s, hf⟩ := framed_of_ofProgram hl hrun
    cases he.symm.trans hf.entry
    have hinferred := hl.inferred_max he hsize hf.infer
    exact ⟨⟨s.knownAt, hinferred.typing⟩, fun i hi => hinferred.reachable hi,
      hinferred.staysInside⟩

/-- The method that never ends has a typing. -/
theorem frames_complete_spin :
    ∃ known, (Spin.program.context Spin.header Spin.layout.offsets).Typing ⟨[], []⟩ known :=
  ((frames_complete Spin.laidOut (by decide) Spin.entry).2 ⟨_, _, _, Spin.framed⟩).1

end Code

end ProxyForge
