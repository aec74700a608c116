import Std.Data.HashMap
import ProxyForge.Code.Error
import ProxyForge.Code.Op
/-!
# Method bodies

A `Body` is a list of lines, each an instruction or a mark that binds a label to the instruction
behind it; a later mark of the same label replaces an earlier one. `Body.resolve` gives the
`Program` in which jumps and handlers name positions: every jump leads to an instruction, and
every handler has one and covers at least one.
-/

namespace ProxyForge

namespace Code

/-- The name of a place in a body. -/
abbrev Label := Nat

/-- A line of a body. -/
inductive Line
  | op (op : Op Label)
  | mark (label : Label)
  deriving DecidableEq, Repr, Inhabited

namespace Line

/-- Instructions one behind the other. -/
def straight (ops : List (Op Label)) : List Line :=
  ops.map op

/-- Instructions one behind the other, the first of which has a label. -/
def block (label : Label) (ops : List (Op Label)) : List Line :=
  mark label :: straight ops

end Line

/-- Who handles an exception that is raised in a range; the end is not part of it. -/
structure Handler (L : Type) where
  start : L
  stop : L
  handler : L
  /-- The internal name of the class that is caught, or any. -/
  caught : Option String
  deriving DecidableEq, Repr

/-- The body of a method. -/
structure Body where
  lines : List Line
  handlers : List (Handler Label)
  deriving DecidableEq, Repr, Inhabited

/-- A body whose jumps and handlers name positions. -/
structure Program where
  ops : Array (Op Nat)
  handlers : List (Handler Nat)
  deriving DecidableEq, Repr, Inhabited

namespace Body

/-- The instructions of lines. -/
def opsOf (lines : List Line) : List (Op Label) :=
  lines.filterMap fun line => match line with
    | .op op => some op
    | .mark _ => none

/-- The instructions. -/
def ops (b : Body) : List (Op Label) :=
  opsOf b.lines

/-- The positions of labels, for lines whose first instruction has a position. -/
def positionsFrom (position : Nat) (bound : Std.HashMap Label Nat) :
    List Line → Std.HashMap Label Nat
  | [] => bound
  | .op _ :: rest => positionsFrom (position + 1) bound rest
  | .mark label :: rest => positionsFrom position (bound.insert label position) rest

/-- The positions of the labels that are bound. -/
def positions (b : Body) : Std.HashMap Label Nat :=
  positionsFrom 0 ∅ b.lines

/-- Where the jump at an index leads. -/
def jumpTarget (bound : Std.HashMap Label Nat) (size index : Nat) (label : Label) :
    Except CodeDefect Nat :=
  match bound[label]? with
  | none => .error (.jumpUnbound index)
  | some position => if position < size then .ok position else .error (.jumpToEnd index)

/-- A handler with its labels resolved. -/
def resolveHandler (bound : Std.HashMap Label Nat) (size : Nat) (h : Handler Label) :
    Except CodeDefect (Handler Nat) :=
  match bound[h.start]?, bound[h.stop]?, bound[h.handler]? with
  | some start, some stop, some handler =>
    if stop ≤ start ∨ size ≤ handler then .error .handlerRange
    else .ok ⟨start, stop, handler, h.caught⟩
  | _, _, _ => .error .handlerUnbound

/-- The body with its labels resolved. -/
def resolve (b : Body) : Except CodeDefect Program := do
  let bound := b.positions
  let size := b.ops.length
  let ops ← b.ops.zipIdx.mapM fun (op, index) => op.resolve (jumpTarget bound size index)
  let handlers ← b.handlers.mapM (resolveHandler bound size)
  return ⟨ops.toArray, handlers⟩

end Body

end Code

end ProxyForge
