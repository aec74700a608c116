import Mathlib.Logic.Relation
import ProxyForge.ClassFile.Class
import ProxyForge.JvmType.Descriptor
import ProxyForge.Proofs.Exec.Reading
import ProxyForge.Proofs.Run.Machine
/-!
# Running code

A machine for the code of generated classes, with locals, a stack, the objects and arrays that a
run makes, the monitors that it holds, and a record of what it does. What methods return and what
fields hold is up to a `World`; so is which class is below which. `step` runs one instruction that
does not raise an exception of its own, and `raise` sends an exception to the first entry of the
exception table that covers it. A `Move` is either, so it is known what code does on every path.

What a callee does to an array that it is given is left out: no generated body reads an array after
it was passed on.
-/

namespace ProxyForge

namespace Exec

open Code (Op Kind CallKind FieldRef MethodRef Handler)

/-! ## Values -/

/-- **A value.** Numbers are their bits. -/
inductive Value
  | null
  | int (value : Int32)
  | long (bits : UInt64)
  | float (bits : UInt32)
  | double (bits : UInt64)
  | string (text : String)
  /-- A class, by the name that a constant of it has. -/
  | classOf (name : String)
  /-- What the run made, in the order of making. -/
  | made (index : Nat)
  /-- Any other object. -/
  | outside (number : Nat)
  deriving DecidableEq, Inhabited

/-- The category of a value. -/
def Value.kind : Value → Kind
  | int _ => .int
  | long _ => .long
  | float _ => .float
  | double _ => .double
  | _ => .reference

/-- What a run makes. -/
inductive Thing
  | object (name : String)
  | array (element : String) (items : List Value)
  deriving DecidableEq

/-- A call, with the receiver in front of the arguments, and what the run had made by then. -/
structure Call where
  kind : CallKind
  method : MethodRef
  operands : List Value
  things : List Thing
  deriving DecidableEq

/-- What the type of a method or field says of values. -/
def resultKind (descriptor : String) : Option Kind :=
  match JvmType.ofMethodDescriptor descriptor with
  | .ok (_, result) => Kind.ofType result
  | .error _ => none

/-- The category of what a field holds. -/
def fieldKind (descriptor : String) : Option Kind :=
  match JvmType.ofDescriptor descriptor with
  | .ok t => Kind.ofType t
  | .error _ => none

/-- **What a run does**, as it can be told afterwards. -/
inductive Event
  /-- A method returned. -/
  | called (call : Call) (result : Option Value)
  | readStatic (field : FieldRef) (value : Value)
  | wroteStatic (field : FieldRef) (value : Value)
  | readField (field : FieldRef) (object value : Value)
  | wroteField (field : FieldRef) (object value : Value)
  /-- An object was checked to be of a class. -/
  | cast (name : String) (object : Value)
  /-- An object was compared with `null`. -/
  | tested (object : Value)
  | entered (monitor : Value)
  | left (monitor : Value)
  | caught (exception : Value)

/-! ## The world -/

/-- What code asks of the world. -/
inductive Query
  | result (call : Call)
  | static (field : FieldRef)
  | held (field : FieldRef) (object : Value)
  | element (array : Value) (index : Int32)

/-- The category of an answer. -/
def Query.kind : Query → Option Kind
  | result call => resultKind call.method.descriptor
  | static field => fieldKind field.descriptor
  | held field _ => fieldKind field.descriptor
  | element _ _ => some .reference

/-- **The world around a run**: it answers as it likes, depending on all that happened before, but
with values of the right category. -/
structure World where
  answer : List Event → Query → Value
  kind_answer : ∀ events query kind, query.kind = some kind → (answer events query).kind = kind
  /-- The class of an object that the run did not make. -/
  classOf : Nat → String
  isSubclass : String → String → Bool

/-! ## States -/

/-- **Where a run is**: locals by slot, the stack with its top first, what was made, the monitors
that are held, and what was done. -/
structure State where
  locals : Nat → Option Value
  stack : List Value
  things : List Thing
  monitors : List Value
  events : List Event

/-- Locals with a value put at a slot. What it cuts in half is gone. -/
def setLocal (locals : Nat → Option Value) (slot : Nat) (v : Value) : Nat → Option Value := fun j =>
  if j = slot then some v
  else if j = slot + 1 ∧ v.kind.slots = 2 then none
  else if j + 1 = slot ∧ (locals j).any (fun u => u.kind.slots = 2) then none
  else locals j

namespace State

variable (w : World) (s : State)

/-- One more value on the stack. -/
def push (v : Value) : State :=
  { s with stack := v :: s.stack }

/-- One more thing done. -/
def record (e : Event) : State :=
  { s with events := s.events ++ [e] }

/-- The answer of the world is put on the stack. -/
def ask (query : Query) : Value :=
  w.answer s.events query

/-- A method is called: its operands are taken from the stack, and its result is put there. -/
def call (kind : CallKind) (method : MethodRef) : Option State :=
  match JvmType.ofMethodDescriptor method.descriptor with
  | .error _ => none
  | .ok (params, result) =>
    let count := Run.State.operandCount kind params
    if s.stack.length < count then none
    else
      let c : Call := ⟨kind, method, (s.stack.take count).reverse, s.things⟩
      let rest := { s with stack := s.stack.drop count }
      if result = .void then some (rest.record (.called c none))
      else some ((rest.push (s.ask w (.result c))).record (.called c (s.ask w (.result c))))

/-- The element of an array. -/
def element (array : Value) (index : Int32) : Option Value :=
  match array with
  | .made n =>
    match s.things[n]? with
    | some (.array _ items) => if 0 ≤ index then items[index.toInt.toNat]? else none
    | _ => none
  | array => some (s.ask w (.element array index))

/-- What was made, with a value put into an array. -/
def setElement (array : Nat) (index : Int32) (v : Value) : Option (List Thing) :=
  match s.things[array]? with
  | some (.array element items) =>
    if 0 ≤ index ∧ index.toInt.toNat < items.length then
      some (s.things.set array (.array element (items.set index.toInt.toNat v)))
    else none
  | _ => none

/-- **An instruction that passes control on.** -/
def advance : Op Nat → Option State
  | .null => some (s.push .null)
  | .int value => some (s.push (.int value))
  | .string text => some (s.push (.string text))
  | .classOf name => some (s.push (.classOf name))
  | .load kind index =>
    match s.locals index.toNat with
    | some v => if v.kind = kind then some (s.push v) else none
    | none => none
  | .store kind index =>
    match s.stack with
    | v :: rest =>
      if v.kind = kind then
        some { s with stack := rest, locals := setLocal s.locals index.toNat v }
      else none
    | [] => none
  | .arrayLoad =>
    match s.stack with
    | .int index :: array :: rest =>
      (s.element w array index).map fun v => { s with stack := v :: rest }
    | _ => none
  | .arrayStore =>
    match s.stack with
    | v :: .int index :: .made n :: rest =>
      (s.setElement n index v).map fun things => { s with stack := rest, things := things }
    | _ => none
  | .pop =>
    match s.stack with
    | v :: rest => if v.kind.slots = 1 then some { s with stack := rest } else none
    | [] => none
  | .dup =>
    match s.stack with
    | v :: _ => if v.kind.slots = 1 then some (s.push v) else none
    | [] => none
  | .getStatic field =>
    let v := s.ask w (.static field)
    some ((s.push v).record (.readStatic field v))
  | .putStatic field =>
    match s.stack with
    | v :: rest => some ({ s with stack := rest }.record (.wroteStatic field v))
    | [] => none
  | .getField field =>
    match s.stack with
    | object :: rest =>
      let v := s.ask w (.held field object)
      some ({ s with stack := v :: rest }.record (.readField field object v))
    | [] => none
  | .putField field =>
    match s.stack with
    | v :: object :: rest =>
      some ({ s with stack := rest }.record (.wroteField field object v))
    | _ => none
  | .invoke kind method => s.call w kind method
  | .new name => some { s.push (.made s.things.length) with things := s.things ++ [.object name] }
  | .newArray element =>
    match s.stack with
    | .int length :: rest =>
      if 0 ≤ length then
        some { s with
          stack := .made s.things.length :: rest
          things := s.things ++ [.array element (List.replicate length.toInt.toNat .null)] }
      else none
    | _ => none
  | .cast name =>
    match s.stack with
    | v :: _ => some (s.record (.cast name v))
    | [] => none
  | .monitorEnter =>
    match s.stack with
    | v :: rest =>
      some ({ s with stack := rest, monitors := v :: s.monitors }.record (.entered v))
    | [] => none
  | .monitorExit =>
    match s.stack with
    | v :: rest =>
      some ({ s with stack := rest, monitors := s.monitors.erase v }.record (.left v))
    | [] => none
  | .ret _ | .throw | .jump _ _ | .lookupSwitch _ _ => none

end State

/-- **Instructions that pass control on**, one behind the other. -/
def runOps (w : World) : List (Op Nat) → State → Option State
  | [], s => some s
  | op :: rest, s => (s.advance w op).bind (runOps w rest)

/-! ## Code -/

/-- **The code of a method**: instructions with their offsets, in their order, and an exception
table. -/
structure Routine where
  lines : List (Nat × Op Nat)
  handlers : List (Handler Nat)

namespace Routine

/-- An entry of the exception table. Index zero catches everything. -/
def handler (pool : Pool) (entry : HandlerEntry) : Option (Handler Nat) :=
  if entry.catchType = 0 then
    some ⟨entry.start.toNat, entry.stop.toNat, entry.handler.toNat, none⟩
  else (pool.className entry.catchType).toOption.map fun name =>
    ⟨entry.start.toNat, entry.stop.toNat, entry.handler.toNat, some name⟩

/-- An instruction with its offset. -/
def line (pool : Pool) (i : Instruction) : Option (Nat × Op Nat) :=
  (i.op pool).map fun op => (i.offset, op)

/-- The code in the body of a code attribute. -/
def ofBody (pool : Pool) (body : CodeBody) : Option Routine := do
  let is ← body.instructions.toOption
  return ⟨← is.mapM (line pool), ← body.handlers.mapM (handler pool)⟩

/-- **The code of a method in a class file.** -/
def ofMember (c : ClassFile) (m : Member) : Option Routine := do
  let body ← (← (c.code m).toOption)
  ofBody c.pool body

/-- The instruction at an offset, and the offset of the one behind it. -/
def fetch (r : Routine) (pc : Nat) : Option (Op Nat × Option Nat) :=
  match r.lines.dropWhile fun line => line.1 ≠ pc with
  | [] => none
  | (_, op) :: rest => some (op, rest.head?.map Prod.fst)

end Routine

/-! ## Exceptions -/

/-- How a run ends. -/
inductive Ending
  | returned (value : Option Value)
  | threw (exception : Value)

/-- **A run**, at the instruction at an offset or at its end. -/
inductive Config
  | running (pc : Nat) (s : State)
  | ended (ending : Ending) (s : State)

/-- The class of an object. -/
def World.className (w : World) (things : List Thing) : Value → String
  | .string _ => "java/lang/String"
  | .classOf _ => "java/lang/Class"
  | .outside n => w.classOf n
  | .made n =>
    match things[n]? with
    | some (.object name) => name
    | some (.array element _) => "[" ++ element
    | none => ""
  | _ => ""

/-- Does a handler catch objects of a class? -/
def World.catches (w : World) (h : Handler Nat) (name : String) : Bool :=
  match h.caught with
  | none => true
  | some caught => w.isSubclass name caught

/-- Does the range of a handler hold an offset? -/
def spans (h : Handler Nat) (pc : Nat) : Bool :=
  h.start ≤ pc ∧ pc < h.stop

/-- **An exception is raised** by the instruction at an offset. The first entry of the exception
table that covers it takes it; if there is none, it leaves the method. -/
def raise (w : World) (r : Routine) (pc : Nat) (e : Value) (s : State) : Config :=
  match r.handlers.find? fun h => spans h pc && w.catches h (w.className s.things e) with
  | some h => .running h.handler ({ s with stack := [e] }.record (.caught e))
  | none => .ended (.threw e) s

/-! ## Steps -/

/-- An instruction that does not just pass control on. -/
def transfer (w : World) (r : Routine) (pc : Nat) (next : Option Nat) (s : State) :
    Op Nat → Option Config
  | .jump .always target => some (.running target s)
  | .jump .ifNull target =>
    match s.stack with
    | v :: rest =>
      let s' := { s with stack := rest }.record (.tested v)
      if v = .null then some (.running target s') else next.map (.running · s')
    | [] => none
  | .jump .ifNonNull target =>
    match s.stack with
    | v :: rest =>
      let s' := { s with stack := rest }.record (.tested v)
      if v = .null then next.map (.running · s') else some (.running target s')
    | [] => none
  | .lookupSwitch fallback cases =>
    match s.stack with
    | .int key :: rest => some (.running (Run.select fallback cases key) { s with stack := rest })
    | _ => none
  | .ret none => some (.ended (.returned none) s)
  | .ret (some kind) =>
    match s.stack with
    | v :: _ => if v.kind = kind then some (.ended (.returned (some v)) s) else none
    | [] => none
  | .throw =>
    match s.stack with
    | v :: _ => some (raise w r pc v s)
    | [] => none
  | _ => none

/-- **One instruction**, which does not raise an exception of its own. -/
def step (w : World) (r : Routine) : Config → Option Config
  | .ended _ _ => none
  | .running pc s => do
    let (op, next) ← r.fetch pc
    match s.advance w op with
    | some s' => next.map (.running · s')
    | none => transfer w r pc next s op

/-- **A run without exceptions leads somewhere.** -/
def Leads (w : World) (r : Routine) : Config → Config → Prop :=
  Relation.ReflTransGen fun c c' => step w r c = some c'

/-- **A move**: an instruction takes effect, or it raises any exception before that. -/
inductive Move (w : World) (r : Routine) : Config → Config → Prop
  | step {c c' : Config} (h : step w r c = some c') : Move w r c c'
  | raise {pc : Nat} {s : State} (e : Value) (hpc : (r.fetch pc).isSome) :
    Move w r (.running pc s) (raise w r pc e s)

/-- **A path**: moves one after the other. -/
def Path (w : World) (r : Routine) : Config → Config → Prop :=
  Relation.ReflTransGen (Move w r)

end Exec

end ProxyForge
