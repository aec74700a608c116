import ProxyForge.Proofs.ClassFile.Pool
import ProxyForge.Proofs.ClassFile.Truncation
/-!
# The slots of a pool

The reader of a pool holds its index against the declared count between two constants only. So a
wide constant at the last index that was declared takes a slot too many, and if the count is the
greatest there is, the index is zero again behind it and constants are read on. Nothing else goes
wrong: without such a constant a pool has as many slots as were declared, and a reader whose index
has no bound takes the same constants (`Pool.decode_respects_iff`).
-/

namespace ProxyForge

open Outcome

namespace Pool

/-! ## Two readers -/

/-- **Constants are taken one behind the other**, each with the index that the reader has for it,
until the index is out of range. -/
inductive Walk {ι : Type} (inRange : ι → Prop) (advance : ι → Constant → ι) (label : ι → UInt16) :
    ι → Cursor → List (ι × Constant) → Cursor → Prop
  | done {i : ι} {c : Cursor} (hend : ¬ inRange i) : Walk inRange advance label i c [] c
  | entry {i : ι} {c c₁ c' : Cursor} {k : Constant} {steps : List (ι × Constant)}
      (hrange : inRange i) (hk : Constant.decode (label i) c = .ok k c₁)
      (h : Walk inRange advance label (advance i k) c₁ steps c') :
      Walk inRange advance label i c ((i, k) :: steps) c'

/-- The reader, whose index has sixteen bits. -/
abbrev Bounded (count : UInt16) :=
  Walk (· < count) next id

/-- A reader whose index has no bound. -/
abbrev Unbounded (count : Nat) :=
  Walk (· < count) (fun i k => i + k.width) UInt16.ofNat

/-- **The index was never counted past sixteen bits.** -/
def Steady (steps : List (UInt16 × Constant)) : Prop :=
  ∀ step ∈ steps, step.1.toNat + step.2.width < 65536

/-- A step of the reader as one of a reader without a bound. -/
def widen (step : UInt16 × Constant) : Nat × Constant :=
  (step.1.toNat, step.2)

variable {count index : UInt16} {c c' : Cursor} {steps : List (UInt16 × Constant)} {p : Pool}
  {k : Constant} {entries : Array (Option Constant)}

/-- **What was read is a walk of the reader.** -/
theorem bounded_of_decodeFrom {fuel : Nat} (hfuel : c.rest.length < fuel)
    (h : decodeFrom count fuel index entries c = .ok p c') :
    ∃ steps, Bounded count index c steps c' ∧
      p.entries = (steps.map Prod.snd).foldl push entries := by
  -- a constant takes a byte at least, so the bytes are used up before the fuel is
  induction fuel generalizing index entries c with
  | zero => exact absurd hfuel (Nat.not_lt_zero _)
  | succ fuel ih =>
    unfold decodeFrom at h
    split at h
    · next hrange =>
      obtain ⟨k, c₁, hk, hrest⟩ := bind_run_ok.1 h
      have hlt := Constant.length_rest_lt_of_decode hk
      obtain ⟨steps, hwalk, hentries⟩ := ih (by omega) hrest
      exact ⟨(index, k) :: steps, .entry hrange hk hwalk, hentries⟩
    · next hend =>
      cases h
      exact ⟨[], .done hend, rfl⟩

theorem size_push_eq {i : Nat} (hi : entries.size = i) (k : Constant) :
    (push entries k).size = i + k.width :=
  hi ▸ size_push entries k

/-- A constant that takes more than one index is wide. -/
theorem isWide_of_lt_width (h : 1 < k.width) : k.isWide ∧ k.width = 2 := by
  unfold Constant.width at *
  split at h
  · next hwide => exact ⟨hwide, if_pos hwide⟩
  · exact absurd h (Nat.lt_irrefl 1)

theorem toNat_next (h : index.toNat + k.width < 65536) :
    (next index k).toNat = index.toNat + k.width := by
  unfold next Constant.width at *
  rw [UInt16.toNat_add]
  split at h <;> rename_i hwide <;> simp only [hwide] <;> exact Nat.mod_eq_of_lt h

namespace Walk

variable {ι : Type} {inRange : ι → Prop} {advance : ι → Constant → ι} {label : ι → UInt16} {i : ι}
  {taken : List (ι × Constant)}

theorem length_rest_le (h : Walk inRange advance label i c taken c') :
    c'.rest.length ≤ c.rest.length := by
  induction h with
  | done => exact Nat.le_refl _
  | entry _ hk _ ih => exact Nat.le_trans ih (Nat.le_of_lt (Constant.length_rest_lt_of_decode hk))

/-- A reader takes bytes if its index is in range. -/
theorem length_rest_lt (h : Walk inRange advance label i c taken c') (hrange : inRange i) :
    c'.rest.length < c.rest.length := by
  cases h with
  | done hend => exact absurd hrange hend
  | entry _ hk hrest =>
    exact Nat.lt_of_le_of_lt hrest.length_rest_le (Constant.length_rest_lt_of_decode hk)

end Walk

/-- **One more constant for the reader without a bound.** -/
theorem Unbounded.of_entry {n : Nat} {taken : List (Nat × Constant)} {c₁ : Cursor}
    (hrange : index.toNat < n) (hk : Constant.decode index c = .ok k c₁)
    (h : Unbounded n (index.toNat + k.width) c₁ taken c') :
    Unbounded n index.toNat c (widen (index, k) :: taken) c' :=
  .entry hrange (by rwa [UInt16.ofNat_toNat]) h

/-- **The two readers agree** until the index is counted past sixteen bits. That is behind a wide
constant at the last index of the greatest count; there the one reader stops, and the other begins
again at index zero. -/
theorem Bounded.steady_or_wraps (h : Bounded count index c steps c') :
    (Steady steps ∧ Unbounded count.toNat index.toNat c (steps.map widen) c') ∨
    ∃ front back k c₁, steps = front ++ (65534, k) :: back ∧ k.isWide ∧ count = 65535 ∧
      Unbounded count.toNat index.toNat c ((front ++ [(65534, k)]).map widen) c₁ ∧
      Bounded count 0 c₁ back c' := by
  induction h with
  | done hend => exact .inl ⟨List.forall_mem_nil _, .done hend⟩
  | @entry index c c₁ c' k steps hrange hk hwalk ih =>
    have hlt : index.toNat < count.toNat := hrange
    have hmax := count.toNat_lt
    by_cases hfit : index.toNat + k.width < 65536
    · rw [toNat_next hfit] at ih
      rcases ih with ⟨hsteady, hrest⟩ | ⟨front, back, k', c₂, rfl, hwide, hcount, hrest, hback⟩
      · exact .inl ⟨List.forall_mem_cons.2 ⟨hfit, hsteady⟩, .of_entry hlt hk hrest⟩
      · exact .inr ⟨(index, k) :: front, back, k', c₂, rfl, hwide, hcount, .of_entry hlt hk hrest,
          hback⟩
    · -- the index has one bit pattern left, and two slots are needed
      obtain ⟨hwide, hwidth⟩ := isWide_of_lt_width (k := k) (by omega)
      obtain rfl : index = 65534 := UInt16.toNat.inj (by
        change index.toNat = 65534
        omega)
      obtain rfl : count = 65535 := UInt16.toNat.inj (by
        change count.toNat = 65535
        omega)
      have hzero : next 65534 k = 0 := by
        rw [next, if_pos hwide]
        rfl
      refine .inr ⟨[], steps, k, c₁, rfl, hwide, rfl, .of_entry hlt hk (.done ?_), hzero ▸ hwalk⟩
      rw [hwidth]
      decide

/-! ## Where the constants stand -/

namespace Unbounded

variable {n i : Nat} {taken : List (Nat × Constant)}

/-- **A constant stands at its index**, which was in range, and there is room for all of it. -/
theorem stored (h : Unbounded n i c taken c') (hi : entries.size = i) :
    ∀ step ∈ taken, i ≤ step.1 ∧ step.1 < n ∧
      ((taken.map Prod.snd).foldl push entries)[step.1]? = some (some step.2) ∧
      step.1 + step.2.width ≤ ((taken.map Prod.snd).foldl push entries).size := by
  induction h generalizing entries with
  | done => exact List.forall_mem_nil _
  | @entry i c c₁ c' k taken hrange hk hrest ih =>
    have hsize := size_push_eq hi k
    have hpos : 0 < k.width := by unfold Constant.width; split <;> decide
    refine List.forall_mem_cons.2 ⟨⟨Nat.le_refl _, hrange, ?_, ?_⟩, fun step hstep => ?_⟩
    · change ((taken.map Prod.snd).foldl push (push entries k))[i]? = some (some k)
      rw [getElem?_foldl_push _ (by omega), getElem?_push, if_pos hi.symm]
    · exact hsize ▸ size_le_foldl_push (push entries k) (taken.map Prod.snd)
    · obtain ⟨hle, hlt, hstored, hroom⟩ := ih hsize step hstep
      exact ⟨by omega, hlt, hstored, hroom⟩

/-- **What stands behind the start was taken.** -/
theorem taken_of_getElem? (h : Unbounded n i c taken c') (hi : entries.size = i) {j : Nat}
    (hj : i ≤ j) (hk : ((taken.map Prod.snd).foldl push entries)[j]? = some (some k)) :
    (j, k) ∈ taken := by
  induction h generalizing entries with
  | done =>
    rw [List.map_nil, List.foldl_nil, Array.getElem?_eq_none (by omega)] at hk
    cases hk
  | @entry i c c₁ c' k' taken hrange _ hrest ih =>
    have hsize := size_push_eq hi k'
    by_cases hbehind : i + k'.width ≤ j
    · exact List.mem_cons_of_mem _ (ih hsize hbehind hk)
    · change ((taken.map Prod.snd).foldl push (push entries k'))[j]? = some (some k) at hk
      rw [getElem?_foldl_push _ (by omega), getElem?_push] at hk
      split at hk
      · next hj' =>
        obtain rfl : j = i := hj'.trans hi
        cases hk
        exact List.mem_cons_self
      · split at hk
        · cases hk
        · rw [Array.getElem?_eq_none (by omega)] at hk
          cases hk

/-- **As many slots as were declared**, or one more behind a wide constant at the last index. -/
theorem size_or_overhangs (h : Unbounded n i c taken c') (hi : entries.size = i) (hle : i ≤ n) :
    ((taken.map Prod.snd).foldl push entries).size = n ∨
    ((taken.map Prod.snd).foldl push entries).size = n + 1 ∧
      ∃ k, k.isWide ∧ (n - 1, k) ∈ taken := by
  induction h generalizing entries with
  | done hend =>
    left
    rw [List.map_nil, List.foldl_nil]
    exact hi.trans (Nat.le_antisymm hle (Nat.le_of_not_lt hend))
  | @entry i c c₁ c' k taken hrange _ hrest ih =>
    have hsize := size_push_eq hi k
    by_cases hfits : i + k.width ≤ n
    · rcases ih hsize hfits with heq | ⟨heq, k', hwide, hmem⟩
      · exact .inl heq
      · exact .inr ⟨heq, k', hwide, List.mem_cons_of_mem _ hmem⟩
    · obtain ⟨hwide, hwidth⟩ := isWide_of_lt_width (k := k) (by omega)
      obtain rfl : n = i + 1 := by omega
      cases hrest with
      | entry hrange' => omega
      | done =>
        exact .inr ⟨hsize.trans (by omega), k, hwide, List.mem_cons_self⟩

end Unbounded

/-! ## The declared count -/

/-- **A pool keeps to a count**: it has as many slots, and each constant has all of its slots at
indexes from one on and below the count. -/
structure Respects (p : Pool) (n : Nat) : Prop where
  count_eq : p.count = n
  inside : ∀ i k, p.entries[i]? = some (some k) → 1 ≤ i ∧ i + k.width ≤ n

/-- **A wide constant stands at the last index** below a count. -/
def Overhangs (p : Pool) (n : Nat) : Prop :=
  ∃ k, p.entries[n - 1]? = some (some k) ∧ k.isWide

variable {c₀ c₁ c₂ : Cursor}

/-- A pool lists what its reader takes behind the count. -/
theorem exists_bounded_of_decode (hcount : Decoder.u16 c₀ = .ok count c₁)
    (hp : decode c₀ = .ok p c₂) :
    ∃ steps, Bounded count 1 c₁ steps c₂ ∧ p.Lists (steps.map Prod.snd) := by
  unfold decode at hp
  rw [bind_run_eq hcount] at hp
  obtain ⟨fuel, c, hfuel, hread⟩ := bind_run_ok.1 hp
  cases hfuel
  exact bounded_of_decodeFrom (Nat.lt_succ_self _) hread

/-- A pool that keeps to a count has no such constant. -/
theorem Respects.not_overhangs {n : Nat} (h : p.Respects n) (hn : 0 < n) : ¬ p.Overhangs n := by
  rintro ⟨k, hk, hwide⟩
  have hroom := (h.inside _ k hk).2
  have hwidth : k.width = 2 := if_pos hwide
  omega

/-- The first slot is there before anything is read. -/
theorem size_first : (#[none] : Array (Option Constant)).size = 1 :=
  rfl

/-- **A pool without such a constant respects the count**; with one it has a slot too many. -/
theorem Unbounded.respects_or_overhangs {n : Nat} {taken : List (Nat × Constant)}
    (h : Unbounded n 1 c₁ taken c₂) (hn : 0 < n) (hlists : p.Lists (taken.map Prod.snd)) :
    p.Respects n ∨ p.count = n + 1 ∧ p.Overhangs n := by
  have hstored := h.stored size_first
  rw [← hlists] at hstored
  have hsize := h.size_or_overhangs size_first hn
  rw [← hlists] at hsize
  rcases hsize with hsize | ⟨hsize, k, hwide, hmem⟩
  · refine .inl ⟨hsize, fun i k hk => ?_⟩
    have hpos : 1 ≤ i := by
      rcases Nat.eq_zero_or_pos i with rfl | hpos
      · rw [hlists, getElem?_foldl_push _ (by decide)] at hk
        cases hk
      · exact hpos
    rw [hlists] at hk
    exact ⟨hpos, hsize ▸ (hstored _ (h.taken_of_getElem? rfl hpos hk)).2.2.2⟩
  · exact .inr ⟨hsize, k, (hstored _ hmem).2.2.1, hwide⟩

/-- Behind a wide constant at the last index of all, the index is counted past sixteen bits. -/
theorem not_lt_of_widen_eq {step : UInt16 × Constant} (h : widen step = (65534, k))
    (hwide : k.isWide) : ¬ step.1.toNat + step.2.width < 65536 := by
  obtain ⟨index, k'⟩ := step
  obtain ⟨hindex, rfl⟩ := Prod.mk.inj h
  have hwidth : k'.width = 2 := if_pos hwide
  change ¬ index.toNat + k'.width < 65536
  change index.toNat = 65534 at hindex
  omega

/-- **A pool and its declared count.** The constants that are read keep to the count, the index
stays within its sixteen bits, and a reader without that bound takes the same constants to the same
place, exactly if there is no wide constant at the last index that was declared. Behind such a
constant the pool has one slot too many. If that index is the last of all, the bounded index wraps,
and more bytes are taken than a reader without the bound takes. -/
theorem decode_respects_iff (hcount : Decoder.u16 c₀ = .ok count c₁) (hpos : 0 < count)
    (hp : decode c₀ = .ok p c₂) :
    ∃ steps, Bounded count 1 c₁ steps c₂ ∧ p.Lists (steps.map Prod.snd) ∧
      (p.Respects count.toNat ∧ Steady steps ∧
          Unbounded count.toNat 1 c₁ (steps.map widen) c₂ ↔ ¬ p.Overhangs count.toNat) ∧
      (p.Overhangs count.toNat → count < 65535 →
        p.count = count.toNat + 1 ∧ Steady steps ∧
          Unbounded count.toNat 1 c₁ (steps.map widen) c₂) ∧
      (p.Overhangs count.toNat → count = 65535 →
        ¬ Steady steps ∧ ∃ front back c', steps = front ++ back ∧
          Unbounded count.toNat 1 c₁ (front.map widen) c' ∧
          c₂.rest.length < c'.rest.length) := by
  obtain ⟨steps, hwalk, hlists⟩ := exists_bounded_of_decode hcount hp
  have hn : 0 < count.toNat := hpos
  refine ⟨steps, hwalk, hlists, ?_⟩
  rcases hwalk.steady_or_wraps with ⟨hsteady, hun⟩ | ⟨front, back, k, c', rfl, hwide, rfl, hun, hback⟩
  · have htaken : p.Lists ((steps.map widen).map Prod.snd) := by
      rwa [List.map_map]
    rcases hun.respects_or_overhangs hn htaken with hrespects | ⟨hmore, hover⟩
    · have hnot := hrespects.not_overhangs hn
      exact ⟨⟨fun _ => hnot, fun _ => ⟨hrespects, hsteady, hun⟩⟩, fun h => absurd h hnot,
        fun h => absurd h hnot⟩
    · refine ⟨⟨fun h => h.1.not_overhangs hn, fun h => absurd hover h⟩,
        fun _ _ => ⟨hmore, hsteady, hun⟩, fun _ hmax => ?_⟩
      obtain ⟨k, hk, hwide⟩ := hover
      obtain rfl := hmax
      rw [htaken] at hk
      obtain ⟨step, hstep, hlast⟩ := List.mem_map.1 (hun.taken_of_getElem? rfl (by decide) hk)
      exact absurd (hsteady step hstep) (not_lt_of_widen_eq hlast hwide)
  · have hover : p.Overhangs (65535 : UInt16).toNat := by
      have hmem : (65534, k) ∈ (front ++ [(65534, k)]).map widen :=
        List.mem_map.2 ⟨(65534, k), List.mem_append_right _ List.mem_cons_self, rfl⟩
      obtain ⟨-, -, hstored, hroom⟩ := hun.stored size_first _ hmem
      have hentries : p.entries =
          (back.map Prod.snd).foldl push
            ((((front ++ [(65534, k)]).map widen).map Prod.snd).foldl push #[none]) := by
        rw [← List.foldl_append, List.map_map, hlists]
        simp [widen, Function.comp_def]
      refine ⟨k, ?_, hwide⟩
      rw [hentries]
      have hwidth : 0 < k.width := by
        rw [Constant.width, if_pos hwide]
        decide
      have hin := Nat.lt_of_lt_of_le (Nat.lt_add_of_pos_right hwidth) hroom
      exact (getElem?_foldl_push _ hin).trans hstored
    have hnot : ¬ Steady (front ++ (65534, k) :: back) := fun hsteady =>
      absurd (hsteady _ (List.mem_append_right front List.mem_cons_self))
        (not_lt_of_widen_eq rfl hwide)
    refine ⟨⟨fun h => absurd h.2.1 hnot, fun h => absurd hover h⟩,
      fun _ hlt => absurd hlt (by decide), fun _ _ => ⟨hnot, _, back, c',
        List.append_cons front _ back, hun, hback.length_rest_lt (by decide)⟩⟩

/-- A count of two with a wide constant at index one. -/
def overhanging : Bytes :=
  [0, 2, 5, 0, 0, 0, 0, 0, 0, 0, 5]

/-- Its pool has three slots. -/
theorem decode_respects_overhanging :
    ∃ p c, decode (.start overhanging) = .ok p c ∧ ¬ p.Respects 2 ∧ p.count = 3 := by
  have hcount : Decoder.u16 (.start overhanging) = .ok 2 ⟨2, [5, 0, 0, 0, 0, 0, 0, 0, 5]⟩ := rfl
  have hp : decode (.start overhanging) =
      .ok ⟨#[none, some (.long 5), none]⟩ ⟨11, []⟩ := rfl
  have hover : Overhangs ⟨#[none, some (.long 5), none]⟩ 2 := ⟨.long 5, rfl, rfl⟩
  obtain ⟨steps, -, -, hiff, hmore, -⟩ := decode_respects_iff hcount (by decide) hp
  obtain ⟨hthree, hsteady, hun⟩ := hmore hover (by decide)
  exact ⟨_, _, hp, fun h => hiff.1 ⟨h, hsteady, hun⟩ hover, hthree⟩

end Pool

end ProxyForge
