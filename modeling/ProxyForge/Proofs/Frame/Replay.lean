import ProxyForge.Proofs.Frame.RoundTrip
import ProxyForge.Proofs.Outcome
/-!
# Frames replayed

A frame says what it changes, so what it stands for depends on the frames in front of it.
`Frame.replay` goes through them in order. `Frame.compress` writes a frame that stands for the
locals and the stack that it was made from (`Frame.localsBehind_compress`,
`Frame.stackOf_compress`).
-/

namespace ProxyForge

namespace Frame

variable {α : Type} {read : VerificationType → Option α} {before locals : List α}
  {beforeTypes localTypes stackTypes : List VerificationType} {stack : List α} {delta : UInt16}

/-! ## What frames stand for -/

/-- The locals of a frame, one entry a value, behind a frame with other locals. Each type is read
as something known of a value. -/
def localsBehind (read : VerificationType → Option α) (before : List α) :
    Frame → Option (List α)
  | same _ => some before
  | sameWithItem _ _ => some before
  | chop _ count => some (before.take (before.length - count.toNat))
  | append _ locals => do return before ++ (← locals.mapM read)
  | full _ locals _ => locals.mapM read

/-- The stack of a frame, the bottom first. -/
def stackOf (read : VerificationType → Option α) : Frame → Option (List α)
  | sameWithItem _ item => do return [← read item]
  | full _ _ stack => stack.mapM read
  | _ => some []

/-- **The locals and the stack of each frame**, behind a frame with other locals. -/
def replay (read : VerificationType → Option α) (before : List α) :
    List Frame → Option (List (List α × List α))
  | [] => some []
  | f :: rest => do
    let locals ← f.localsBehind read before
    let stack ← f.stackOf read
    return (locals, stack) :: (← replay read locals rest)

/-! ## Compressed frames -/

/-- The types are read as what stands at their places. -/
abbrev ReadAs (read : VerificationType → Option α) (types : List VerificationType)
    (values : List α) : Prop :=
  List.Forall₂ (fun t x => read t = some x) types values

theorem ReadAs.mapM (h : ReadAs read localTypes locals) : localTypes.mapM read = some locals := by
  induction h with
  | nil => rfl
  | cons hx _ ih =>
    rw [List.mapM_cons, hx, ih]
    rfl

theorem ReadAs.unique (h : ReadAs read localTypes locals) (h' : ReadAs read localTypes before) :
    locals = before :=
  Option.some.inj (h.mapM.symm.trans h'.mapM)

/-- **Compressing keeps the locals.** -/
theorem localsBehind_compress (hbefore : ReadAs read beforeTypes before)
    (hlocals : ReadAs read localTypes locals) (stackTypes : List VerificationType)
    (delta : UInt16) :
    (compress beforeTypes localTypes stackTypes delta).localsBehind read before = some locals := by
  unfold compress
  split
  · rename_i heq
    obtain rfl := of_decide_eq_true heq
    exact congrArg some (hbefore.unique hlocals)
  · rename_i heq
    obtain rfl := of_decide_eq_true heq
    exact congrArg some (hbefore.unique hlocals)
  · split
    · -- chop: the new locals are the front of the old ones
      rename_i hchop
      simp only [Bool.and_eq_true, decide_eq_true_eq, List.isPrefixOf_iff_prefix] at hchop
      obtain ⟨⟨⟨-, hlt⟩, hle⟩, rest, hprefix⟩ := hchop
      subst hprefix
      rw [List.length_append] at hlt hle
      have hcount : (UInt8.ofNat ((localTypes ++ rest).length - localTypes.length)).toNat =
          rest.length := by
        rw [UInt8.toNat_ofNat', List.length_append, Nat.add_sub_cancel_left]
        exact Nat.mod_eq_of_lt (by omega)
      have hlen := hbefore.length_eq
      rw [List.length_append] at hlen
      simp only [localsBehind, hcount]
      rw [show before.length - rest.length = localTypes.length by omega]
      have htake := List.forall₂_take localTypes.length hbefore
      rw [List.take_left] at htake
      exact congrArg some (ReadAs.unique htake hlocals)
    · split
      · -- append: the old locals are the front of the new ones
        rename_i happend
        simp only [Bool.and_eq_true, decide_eq_true_eq, List.isPrefixOf_iff_prefix] at happend
        obtain ⟨-, rest, hprefix⟩ := happend
        subst hprefix
        have htake := List.forall₂_take beforeTypes.length hlocals
        have hdrop := List.forall₂_drop beforeTypes.length hlocals
        rw [List.take_left] at htake
        rw [List.drop_left] at hdrop
        simp only [localsBehind, List.drop_left, ReadAs.mapM hdrop, hbefore.unique htake]
        exact congrArg some (List.take_append_drop _ _)
      · exact hlocals.mapM

/-- **Compressing keeps the stack.** -/
theorem stackOf_compress (hstack : ReadAs read stackTypes stack)
    (beforeTypes localTypes : List VerificationType) (delta : UInt16) :
    (compress beforeTypes localTypes stackTypes delta).stackOf read = some stack := by
  unfold compress
  split
  · cases hstack
    rfl
  · exact hstack.mapM
  · split
    · rename_i hchop
      simp only [Bool.and_eq_true, List.isEmpty_iff] at hchop
      obtain ⟨⟨⟨rfl, -⟩, -⟩, -⟩ := hchop
      cases hstack
      rfl
    · split
      · rename_i happend
        simp only [Bool.and_eq_true, List.isEmpty_iff] at happend
        obtain ⟨⟨⟨rfl, -⟩, -⟩, -⟩ := happend
        cases hstack
        rfl
      · exact hstack.mapM

end Frame

/-! ## Compacted locals -/

namespace VerificationType

variable {types : List VerificationType}

theorem dropTops_append (types : List VerificationType) :
    ∃ n, types = dropTops types ++ List.replicate n top := by
  refine ⟨(types.reverse.takeWhile (· = top)).length, ?_⟩
  have hall : types.reverse.takeWhile (· = top) =
      List.replicate (types.reverse.takeWhile (· = top)).length top :=
    List.eq_replicate_of_mem fun t ht => by
      simpa using List.all_eq_true.1 List.all_takeWhile t ht
  have hsplit := List.takeWhile_append_dropWhile (p := (· = top)) (l := types.reverse)
  have := congrArg List.reverse hsplit
  rw [List.reverse_append, List.reverse_reverse, hall, List.reverse_replicate] at this
  exact this.symm

theorem length_entries_le (types : List VerificationType) :
    (entries types).length ≤ types.length := by
  induction types using entries.induct with
  | case1 => exact Nat.le_refl _
  | case2 t hwide => simp [entries, hwide]
  | case3 t hwide _ rest ih =>
    simp only [entries, hwide, if_true, List.length_cons]
    omega
  | case4 t rest hwide ih =>
    rw [entries.eq_def]
    simp only [hwide, Bool.false_eq_true, if_false, List.length_cons]
    omega

theorem length_compactLocals_le (types : List VerificationType) :
    (compactLocals types).length ≤ types.length := by
  obtain ⟨n, hn⟩ := dropTops_append (entries types)
  have hlen := congrArg List.length hn
  rw [List.length_append] at hlen
  have := length_entries_le types
  unfold compactLocals
  omega

end VerificationType

end ProxyForge
