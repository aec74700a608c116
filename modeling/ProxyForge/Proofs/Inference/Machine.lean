import Mathlib.Logic.Relation
import ProxyForge.Code.Inference
import ProxyForge.Proofs.Inference.Paired
/-!
# Running code on types

What the inference of frames is measured against. `Context.Moves` is one step of a machine that
runs code on types: it takes any way out of an instruction, the ways to handlers included.
`Context.Typing` assigns a state to every instruction such that no step leads out of the
assignment.
-/

namespace ProxyForge

namespace Code

namespace Context

variable (c : Context)

/-- **Ways out of an instruction** at position `i`, with the state before it and the state behind
it: which state arrives where. -/
inductive Arrives (i : Nat) (before after : TypeState) : Nat → TypeState → Prop
  /-- A jump, or an arm of a switch. -/
  | jump {op : Op Nat} {j : Nat} (hop : c.ops[i]? = some op) (hj : j ∈ op.targets) :
      Arrives i before after j after
  /-- Control passes on to the instruction behind. -/
  | next {op : Op Nat} (hop : c.ops[i]? = some op) (hu : op.isUnconditional = false) :
      Arrives i before after (i + 1) after
  /-- An exception is raised before the instruction had its effect on the locals. -/
  | raisedBefore {g : Guard} (hg : g ∈ c.guards) (hi : g.covers i) :
      Arrives i before after g.handler ⟨before.locals, [g.caught]⟩
  /-- An exception is raised when the instruction had its effect on the locals. -/
  | raisedAfter {g : Guard} (hg : g ∈ c.guards) (hi : g.covers i) :
      Arrives i before after g.handler ⟨after.locals, [g.caught]⟩

/-- One instruction leads to another, whatever the states are. -/
def Leads (i j : Nat) : Prop :=
  ∃ before after t, c.Arrives i before after j t

/-- A position that control may come to. -/
def Reachable (i : Nat) : Prop :=
  Relation.ReflTransGen c.Leads 0 i

/-- Control never passes on behind the last instruction. -/
def StaysInside : Prop :=
  ∀ (i : Nat) (op : Op Nat), c.ops[i]? = some op → op.isUnconditional = false →
    i + 1 < c.ops.size

/-- No instruction loads or stores a local variable at or beyond the bound. -/
def ReachesBelow (bound : Nat) : Prop :=
  ∀ (i : Nat) (op : Op Nat), c.ops[i]? = some op → op.reach ≤ bound

/-- A bound that holds of all code: the index of a local variable has sixteen bits. -/
theorem reachesBelow_max (n : Nat) : c.ReachesBelow (max n 65537) :=
  fun _ op _ => le_trans (TypeState.reach_le op) (le_max_right n 65537)

/-! ## The machine -/

/-- Where the machine is, and what it knows. -/
structure Config where
  position : Nat
  state : TypeState

/-- **One step of the machine**: the effect of the instruction, and a way out of it. -/
inductive Moves : Config → Config → Prop
  | step {i j : Nat} {s after t : TypeState} {op : Op Nat} (hop : c.ops[i]? = some op)
      (hstep : s.step c.shape (c.offsetAt i) op = .ok after) (h : c.Arrives i s after j t) :
      Moves ⟨i, s⟩ ⟨j, t⟩

/-- **A run of the machine**, of any length, from the first instruction on. -/
def Runs (entry : TypeState) (now : Config) : Prop :=
  Relation.ReflTransGen c.Moves ⟨0, entry⟩ now

/-! ## Typings -/

/-- **A typing**: a state for every instruction, on which the instruction runs, and below which
stays whatever arrives. Everything on a stack is known, and nothing is of the second slot of a
wide local variable. -/
structure Typing (entry : TypeState) (known : Nat → TypeState) : Prop where
  entry_le : entry ≤ known 0
  step : ∀ (i : Nat) (op : Op Nat), c.ops[i]? = some op → ∃ after,
    (known i).step c.shape (c.offsetAt i) op = .ok after ∧
      ∀ j t, c.Arrives i (known i) after j t → j < c.ops.size → t ≤ known j
  stack : ∀ i < c.ops.size, SlotType.top ∉ (known i).stack
  wide : ∀ i < c.ops.size, ∀ k, (TypeState.slotAt (known i).locals k).isWide →
    TypeState.slotAt (known i).locals (k + 1) = .top

/-! ## Well-formed contexts -/

/-- Jumps lead to instructions, and handlers are instructions that start with an object. -/
structure Valid : Prop where
  target_lt : ∀ (i : Nat) (op : Op Nat), c.ops[i]? = some op → ∀ j ∈ op.targets, j < c.ops.size
  handler_lt : ∀ g ∈ c.guards, g.handler < c.ops.size
  caught_object : ∀ g ∈ c.guards, ∃ name, g.caught = .object name

variable {c}

theorem Valid.caught_ne_top (hc : c.Valid) {g : Guard} (hg : g ∈ c.guards) :
    g.caught ≠ .top := by
  obtain ⟨name, h⟩ := hc.caught_object g hg
  rw [h]
  exact SlotType.noConfusion

/-- What arrives from smaller states is smaller. -/
theorem Arrives.mono {i j : Nat} {s s' after after' t : TypeState} (hs : s ≤ s')
    (hafter : after ≤ after') (h : c.Arrives i s after j t) :
    ∃ t', c.Arrives i s' after' j t' ∧ t ≤ t' := by
  cases h with
  | jump hop hj => exact ⟨after', .jump hop hj, hafter⟩
  | next hop hu => exact ⟨after', .next hop hu, hafter⟩
  | raisedBefore hg hi => exact ⟨_, .raisedBefore hg hi, hs.locals, List.forall₂_refl _⟩
  | raisedAfter hg hi => exact ⟨_, .raisedAfter hg hi, hafter.locals, List.forall₂_refl _⟩

/-- What arrives is paired. -/
theorem Arrives.paired (hc : c.Valid) {i j : Nat} {s after t : TypeState} (hs : s.Paired)
    (hafter : after.Paired) (h : c.Arrives i s after j t) : t.Paired := by
  cases h with
  | jump => exact hafter
  | next => exact hafter
  | raisedBefore hg => exact hs.handler (hc.caught_ne_top hg)
  | raisedAfter hg => exact hafter.handler (hc.caught_ne_top hg)

end Context

end Code

end ProxyForge
