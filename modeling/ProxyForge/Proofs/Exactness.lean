import ProxyForge.Proofs.Reading
/-!
# Decoders that take what they read

What an exact decoder gives depends on the bytes that it takes, and on nothing behind them
(`Decoder.Exact`): it gives the same with more bytes behind, and with fewer it runs short, by no
more than what is missing. No other error can come first, since up to the place where the bytes end
it does what it does on all of them. Exactness composes, so a decoder is exact because its parts
are.
-/

namespace ProxyForge

open Outcome

namespace Decoder

variable {α β : Type} {d : Decoder α} {f : α → Decoder β} {offset total : Nat} {bytes : Bytes}

/-- **The bytes end too early.** The decoder asks for some behind them, of `total` in all. -/
def RunsShort (d : Decoder α) (offset : Nat) (bytes : Bytes) (total : Nat) : Prop :=
  ∃ place needed c, d ⟨offset, bytes⟩ = .error (.truncated place needed) c ∧
    place ≤ offset + bytes.length ∧ 1 ≤ needed ∧ bytes.length + needed ≤ total

/-- **A decoder takes what it reads**: it reads its value from the bytes that it took, whatever is
behind them, and runs short on a part of them. -/
def Exact (d : Decoder α) : Prop :=
  ∀ offset rest x c, d ⟨offset, rest⟩ = .ok x c → ∃ bytes left, rest = bytes ++ left ∧
    c = ⟨offset + bytes.length, left⟩ ∧ ReadsAt d offset bytes x ∧
    ∀ front, front <+: bytes → front.length < bytes.length → RunsShort d offset front bytes.length

namespace RunsShort

/-- What a first step asks for is asked for by the whole. -/
theorem bind_left {more : Nat} (h : RunsShort d offset bytes total) :
    RunsShort (d >>= f) offset bytes (total + more) := by
  obtain ⟨place, needed, c, hrun, hplace, hneeded, htotal⟩ := h
  exact ⟨place, needed, c, bind_run_error hrun f, hplace, hneeded, by omega⟩

/-- And what the next one asks for, behind what the first has read. -/
theorem bind_right {x : α} {behind : Bytes} (hd : ReadsAt d offset bytes x)
    (hf : RunsShort (f x) (offset + bytes.length) behind total) :
    RunsShort (d >>= f) offset (bytes ++ behind) (bytes.length + total) := by
  obtain ⟨place, needed, c, hrun, hplace, hneeded, htotal⟩ := hf
  refine ⟨place, needed, c, (bind_run_eq (hd behind) f).trans hrun, ?_, hneeded, ?_⟩
  all_goals
    rw [List.length_append]
    omega

end RunsShort

namespace Exact

theorem pure (x : α) : Exact (Pure.pure x) := by
  intro offset rest y c h
  cases h
  exact ⟨[], rest, rfl, rfl, .pure x, fun front _ hlt => absurd hlt (Nat.not_lt_zero _)⟩

theorem fail (e : FormatError) : Exact (Decoder.fail e : Decoder α) :=
  fun _ _ _ _ h => by cases h

/-- **One behind the other.** A part of what both take ends in one of them. -/
theorem bind (hd : Exact d) (hf : ∀ x, Exact (f x)) : Exact (d >>= f) := by
  intro offset rest y c h
  obtain ⟨x, c₁, h₁, h₂⟩ := bind_run_ok.1 h
  obtain ⟨bytes₁, left₁, rfl, rfl, hreads₁, hshort₁⟩ := hd offset rest x c₁ h₁
  obtain ⟨bytes₂, left₂, rfl, rfl, hreads₂, hshort₂⟩ := hf x _ left₁ y c h₂
  refine ⟨bytes₁ ++ bytes₂, left₂, (List.append_assoc ..).symm, ?_, hreads₁.bind hreads₂, ?_⟩
  · rw [List.length_append, Nat.add_assoc]
  · intro front hfront hlt
    rw [List.length_append] at hlt ⊢
    by_cases hle : front.length < bytes₁.length
    · have hpre : front <+: bytes₁ :=
        List.prefix_of_prefix_length_le hfront (List.prefix_append ..) (Nat.le_of_lt hle)
      exact (hshort₁ front hpre hle).bind_left
    · have hpre : bytes₁ <+: front :=
        List.prefix_of_prefix_length_le (List.prefix_append ..) hfront (Nat.le_of_not_lt hle)
      obtain ⟨behind, rfl⟩ := hpre
      rw [List.length_append] at hlt
      exact .bind_right hreads₁
        (hshort₂ behind ((List.prefix_append_right_inj bytes₁).1 hfront) (by omega))

/-- What is read last may be made into something else. -/
theorem map (g : α → β) (hd : Exact d) : Exact (do return g (← d)) :=
  hd.bind fun x => .pure (g x)

/-- Asking for the offset takes nothing. -/
theorem atOffset : Exact Decoder.offset := by
  intro offset rest x c h
  cases h
  exact ⟨[], rest, rfl, rfl, fun _ => rfl, fun front _ hlt => absurd hlt (Nat.not_lt_zero _)⟩

theorem ite {p : Prop} [Decidable p] {d' : Decoder α} (hd : Exact d) (hd' : Exact d') :
    Exact (if p then d else d') := by
  split
  · exact hd
  · exact hd'

/-! ## Bytes and numbers -/

/-- **Bytes that are asked for at once** are there at once, or not. -/
theorem take (n : Nat) : Exact (Decoder.take n) := by
  intro offset rest x c h
  unfold Decoder.take at h
  dsimp only at h
  split at h
  · cases h
  · next hn =>
    cases h
    have hlength : (rest.take n).length = n := by
      have := List.length_take_le n rest
      omega
    refine ⟨rest.take n, rest.drop n, (List.take_append_drop n rest).symm, by rw [hlength],
      fun left => ?_, fun front _ hlt => ?_⟩
    · simp [Decoder.take, List.take_left' hlength, List.drop_left' hlength, hlength]
    · rw [hlength] at hlt ⊢
      refine ⟨offset, n - front.length, ⟨offset, front⟩, ?_, Nat.le_add_right _ _, by omega,
        by omega⟩
      simp only [Decoder.take, List.take_of_length_le (Nat.le_of_lt hlt), if_pos hlt, truncated]

theorem skip (n : Nat) : Exact (Decoder.skip n) :=
  (take n).map fun _ => ()

/-- A number is read from bytes that are asked for at once. -/
theorem of_take {n : Nat} (g : Bytes → α) (h : ∀ c, d c = (do return g (← Decoder.take n)) c) :
    Exact d := by
  rw [show d = do return g (← Decoder.take n) from funext h]
  exact (take n).map g

theorem u8 : Exact Decoder.u8 := by
  refine of_take (n := 1) (fun bs => bs.getD 0 0) fun c => ?_
  rcases c with ⟨offset, _ | ⟨a, rest⟩⟩ <;> rfl

theorem u16 : Exact Decoder.u16 := by
  refine of_take (n := 2) (fun bs => Bytes.ofBe16 (bs.getD 0 0) (bs.getD 1 0)) fun c => ?_
  rcases c with ⟨offset, _ | ⟨a, _ | ⟨b, rest⟩⟩⟩ <;> rfl

theorem u32 : Exact Decoder.u32 := by
  refine of_take (n := 4)
    (fun bs => Bytes.ofBe32 (bs.getD 0 0) (bs.getD 1 0) (bs.getD 2 0) (bs.getD 3 0)) fun c => ?_
  rcases c with ⟨offset, _ | ⟨a, _ | ⟨b, _ | ⟨c, _ | ⟨d, rest⟩⟩⟩⟩⟩ <;> rfl

theorem u64 : Exact Decoder.u64 :=
  u32.bind fun _ => u32.map _

theorem i32 : Exact Decoder.i32 :=
  u32.map _

/-! ## Several values -/

theorem times (n : Nat) (hd : Exact d) : Exact (Decoder.times n d) := by
  have honto : ∀ acc, Exact (timesOnto d acc n) := by
    induction n with
    | zero => exact fun acc => .pure acc.reverse
    | succ n ih => exact fun acc => hd.bind fun x => ih (x :: acc)
  exact honto []

theorem counted (hd : Exact d) : Exact (Decoder.counted d) :=
  u16.bind fun n => hd.times n.toNat

/-- **A bound that is great enough may depend on the bytes.** If a decoder does, on all bytes of
less than some length, what an exact one does, and there is one for each length, it is exact. -/
theorem of_bounded {bounded : Nat → Decoder α} (hexact : ∀ n, Exact (bounded n))
    (h : ∀ n c, c.rest.length < n → d c = bounded n c) : Exact d := by
  intro offset rest x c hrun
  -- the bytes that are taken are the same for each bound
  obtain ⟨bytes, left, hrest, hc, -, -⟩ :=
    hexact (rest.length + 1) offset rest x c (h _ ⟨offset, rest⟩ (Nat.lt_succ_self _) ▸ hrun)
  have hsame : ∀ n, rest.length < n → ReadsAt (bounded n) offset bytes x ∧
      ∀ front, front <+: bytes → front.length < bytes.length →
        RunsShort (bounded n) offset front bytes.length := by
    intro n hn
    obtain ⟨bytes', left', hrest', hc', hreads, hshort⟩ :=
      hexact n offset rest x c (h n ⟨offset, rest⟩ hn ▸ hrun)
    obtain rfl : left = left' := congrArg Cursor.rest (hc.symm.trans hc')
    obtain rfl : bytes = bytes' := List.append_cancel_right (hrest.symm.trans hrest')
    exact ⟨hreads, hshort⟩
  refine ⟨bytes, left, hrest, hc, fun more => ?_, fun front hfront hlt => ?_⟩
  · rw [h (rest.length + (bytes ++ more).length + 1) ⟨offset, bytes ++ more⟩
      (Nat.lt_succ_of_le (Nat.le_add_left _ _))]
    exact (hsame _ (by omega)).1 more
  · obtain ⟨place, needed, c', hshort, hbounds⟩ :=
      (hsame (rest.length + 1) (Nat.lt_succ_self _)).2 front hfront hlt
    have hfit : front.length < rest.length + 1 := by
      rw [hrest, List.length_append]
      omega
    refine ⟨place, needed, c', ?_, hbounds⟩
    rw [h (rest.length + 1) ⟨offset, front⟩ hfit]
    exact hshort

end Exact

end Decoder

end ProxyForge
