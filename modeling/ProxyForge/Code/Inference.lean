import ProxyForge.Code.Layout
import ProxyForge.Code.TypeState
/-!
# Inference of frames

What is known at each instruction, found by following the code. `Search` holds what is known so
far and the instructions that are to be looked at again, the one put there last first. From the
result come the frames for the places where ways meet, and the greatest height of the stack.
-/

namespace ProxyForge

namespace Code

/-- A range of positions with its handler, which starts with the caught object on the stack. -/
structure Guard where
  start : Nat
  stop : Nat
  handler : Nat
  caught : SlotType
  deriving DecidableEq, Repr

namespace Guard

/-- Is the position in the range? -/
def covers (g : Guard) (position : Nat) : Bool :=
  g.start ≤ position && position < g.stop

/-- The class that a handler catches. -/
def caughtClass (h : Handler Nat) : String :=
  h.caught.getD throwableClass

/-- For each handler, the class that all its ranges catch; the root if they catch several. -/
def caughtClasses (handlers : List (Handler Nat)) : Std.HashMap Nat String :=
  handlers.foldl (fun classes h =>
    match classes[h.handler]? with
    | none => classes.insert h.handler (caughtClass h)
    | some name =>
      if name = caughtClass h then classes else classes.insert h.handler throwableClass) ∅

/-- The ranges of a program. -/
def ofHandlers (handlers : List (Handler Nat)) : List Guard :=
  let classes := caughtClasses handlers
  handlers.map fun h =>
    ⟨h.start, h.stop, h.handler, .object (classes.getD h.handler throwableClass)⟩

end Guard

/-- What the search reads and does not change. -/
structure Context where
  shape : MethodHeader
  ops : Array (Op Nat)
  offsets : Array Nat
  guards : List Guard

namespace Context

/-- The offset of a position. -/
def offsetAt (c : Context) (position : Nat) : Nat :=
  Layout.offsetAt c.offsets position

end Context

/-- How far the search has come. -/
structure Search where
  /-- What is known at each position that was reached. -/
  states : Array (Option TypeState)
  /-- The positions to look at, next one first. -/
  pending : List Nat
  /-- Is a position pending? -/
  queued : Array Bool
  maxStack : UInt16

namespace Search

/-- The search at its start: only the first position is reached. -/
def start (size : Nat) (entry : TypeState) : Search where
  states := (Array.replicate size none).setIfInBounds 0 (some entry)
  pending := [0]
  queued := (Array.replicate size false).setIfInBounds 0 true
  maxStack := 0

/-- What is known at a position. -/
def stateAt (s : Search) (position : Nat) : Option TypeState :=
  (s.states[position]?).join

/-- The position has to be looked at, once. -/
def enqueue (s : Search) (position : Nat) : Search :=
  if s.queued.getD position true then s
  else
    { s with
      pending := position :: s.pending
      queued := s.queued.setIfInBounds position true }

/-- A state arrives at a position. -/
def flow (c : Context) (position : Nat) (arriving : TypeState) (s : Search) :
    Except CodeDefect Search :=
  match s.stateAt position with
  | none =>
    .ok ({ s with states := s.states.setIfInBounds position (some arriving) }.enqueue position)
  | some known => do
    let (merged, changed) ← known.merge (c.offsetAt position) arriving
    let s := { s with states := s.states.setIfInBounds position (some merged) }
    return if changed then s.enqueue position else s

/-- The same state arrives at several positions. -/
def flowAll (c : Context) (arriving : TypeState) (s : Search) (positions : List Nat) :
    Except CodeDefect Search :=
  positions.foldlM (fun s position => s.flow c position arriving) s

/-- An instruction raises an exception, before or after its effect on the locals. -/
def flowToHandler (c : Context) (before after : TypeState) (s : Search) (g : Guard) :
    Except CodeDefect Search := do
  let s ← { s with maxStack := max s.maxStack 1 }.flow c g.handler ⟨before.locals, [g.caught]⟩
  s.flow c g.handler ⟨after.locals, [g.caught]⟩

/-- The instruction at a position passes control on to the one behind it, if it ever does. -/
def flowOn (c : Context) (position : Nat) (op : Op Nat) (after : TypeState) (s : Search) :
    Except CodeDefect Search :=
  if op.isUnconditional then .ok s
  else if c.ops.size ≤ position + 1 then .error .fallsOff
  else s.flow c (position + 1) after

/-- Follow the instruction at a position from what is known there. -/
def visit (c : Context) (position : Nat) (op : Op Nat) (before : TypeState) (s : Search) :
    Except CodeDefect Search := do
  let offset := c.offsetAt position
  let after ← (before.step c.shape offset op).mapError fun fault => .step fault offset
  let s := { s with maxStack := max (max s.maxStack before.stackSize) after.stackSize }
  let s ← (c.guards.filter (·.covers position)).foldlM (flowToHandler c before after) s
  let s ← s.flowAll c after op.targets
  s.flowOn c position op after

/-- Look at the next position. -/
def advance (c : Context) (position : Nat) (s : Search) : Except CodeDefect Search :=
  let s := { s with queued := s.queued.setIfInBounds position false }
  match c.ops[position]?, s.stateAt position with
  | some op, some before => s.visit c position op before
  | _, _ => .ok s

/-- Look at positions until none is pending, at most `fuel` times. -/
def run (c : Context) : (fuel : Nat) → Search → Except CodeDefect Search
  | 0, s => .ok s
  | fuel + 1, s =>
    match s.pending with
    | [] => .ok s
    | position :: rest => do
      let s ← { s with pending := rest }.advance c position
      run c fuel s

/-- More often than this no search looks at a position: each time, something is known no longer
at one of the positions, and a value can lose at most three times. -/
def fuelFor (size locals : Nat) : Nat :=
  (size + 1) * (2 * (size + 2) + 3 * (locals + 65538) + 4)

/-- What is known at every instruction of a method. -/
def infer (c : Context) (entry : TypeState) : Except CodeDefect Search := do
  let size := c.ops.size
  let s ← (start size entry).run c (fuelFor size entry.locals.length)
  match s.states.findIdx? Option.isNone with
  | some position => throw (.unreachable (c.offsetAt position))
  | none => return s

end Search

/-! ## Frames -/

/-- The frames of a method and the limits of its stack and locals. -/
structure VerifierInfo where
  maxStack : UInt16
  maxLocals : UInt16
  frames : List Frame
  deriving DecidableEq, Repr

namespace VerifierInfo

/-- The slots that an instruction needs, counted in sixteen bits. -/
def slotsOf {L : Type} : Op L → UInt16
  | .load kind index => index + UInt16.ofNat kind.slots
  | .store kind index => index + UInt16.ofNat kind.slots
  | _ => 0

/-- The number of slots for local variables. -/
def localLimit (ops : Array (Op Nat)) (entry : TypeState) : UInt16 :=
  ops.foldl (fun n op => max n (slotsOf op)) (Bytes.length16 entry.locals)

/-- Mark positions. -/
def markAll (marks : Array Bool) (positions : List Nat) : Array Bool :=
  positions.foldl (fun marks position => marks.setIfInBounds position true) marks

/-- The positions that need a frame: targets of jumps, instructions that control does not reach
from the one in front, and handlers. -/
def positions (ops : Array (Op Nat)) (guards : List Guard) : List Nat :=
  let marks := ops.toList.zipIdx.foldl (fun marks (op, position) =>
    markAll marks (if op.isUnconditional then (position + 1) :: op.targets else op.targets))
    (Array.replicate ops.size false)
  let marks := markAll marks (guards.map (·.handler))
  (List.range ops.size).filter fun position => marks.getD position false

/-- Slots in the form that they have in a frame. -/
def compact (slots : List SlotType) : Interner (List VerificationType) := do
  return VerificationType.compactLocals (← slots.mapM SlotType.verification)

/-- The distance from the frame in front. -/
def deltaTo (offset : Nat) : (last : Option Nat) → UInt16
  | none => UInt16.ofNat offset
  | some last => UInt16.ofNat (offset - last - 1)

/-- The frames at positions, behind those in `acc` and one with the locals `before` at `last`. -/
def framesFrom (c : Context) (s : Search) (acc : List Frame) (before : List VerificationType)
    (last : Option Nat) : List Nat → Interner (List Frame)
  | [] => return acc.reverse
  | position :: rest =>
    match s.stateAt position with
    | none => framesFrom c s acc before last rest
    | some state => do
      let offset := c.offsetAt position
      let locals ← compact state.locals
      -- the entries at the bottom of the stack come first
      let stack ← state.stack.reverse.mapM SlotType.verification
      let frame := Frame.compress before locals stack (deltaTo offset last)
      framesFrom c s (frame :: acc) locals (some offset) rest

/-- The frames of a program that is laid out at offsets. -/
def ofProgram (shape : MethodHeader) (p : Program) (offsets : Array Nat) :
    Interner VerifierInfo := do
  let invalid {α : Type} (r : Except CodeDefect α) : Interner α :=
    Interner.lift (r.mapError (.invalidCode shape.name))
  let entry ← invalid (TypeState.entry shape)
  if p.ops.isEmpty then invalid (.error .emptyBody)
  let c : Context := ⟨shape, p.ops, offsets, Guard.ofHandlers p.handlers⟩
  let s ← invalid (Search.infer c entry)
  let before ← compact entry.locals
  let frames ← framesFrom c s [] before none (positions p.ops c.guards)
  return ⟨s.maxStack, localLimit p.ops entry, frames⟩

end VerifierInfo

end Code

end ProxyForge
