import ProxyForge.Code.SlotType
/-!
# Stack and locals by type

A `TypeState` is what is known at an instruction. `TypeState.step` is the effect of the
instruction, `TypeState.merge` what is known where two ways meet.
-/

namespace ProxyForge

namespace Code

/-- The class and the method that code belongs to. -/
structure MethodHeader where
  /-- The internal name of the class. -/
  thisClass : String
  name : String
  descriptor : String
  isStatic : Bool
  deriving DecidableEq, Repr

/-- The name of constructors. -/
def constructorName : String := "<init>"

/-- What is known of the slots at an instruction. -/
structure TypeState where
  /-- One entry a slot; `top` behind a wide one. -/
  locals : List SlotType
  /-- One entry a value, the top of the stack first. -/
  stack : List SlotType
  deriving DecidableEq, Repr, Inhabited

namespace TypeState

open SlotType (top)

/-- Slots taken by the stack, counted in sixteen bits. -/
def stackSize (s : TypeState) : UInt16 :=
  s.stack.foldl (fun n t => n + UInt16.ofNat t.slots) 0

/-! ## Entry -/

/-- The receiver of a method, if it has one. -/
def receiver (m : MethodHeader) : List SlotType :=
  if m.isStatic then []
  else if m.name = constructorName then [.uninitializedThis]
  else [.object m.thisClass]

/-- The slots of a parameter. -/
def parameterSlots (t : JvmType) : List SlotType :=
  match SlotType.ofType t with
  | some slot => slot.expand
  | none => []

/-- What is known at the start of a method. -/
def entry (m : MethodHeader) : Except CodeDefect TypeState :=
  match JvmType.ofMethodDescriptor m.descriptor with
  | .error e => .error (.descriptor e)
  | .ok (params, _) => .ok ⟨receiver m ++ params.flatMap parameterSlots, []⟩

/-! ## Locals -/

/-- Locals with at least `n` slots. -/
def pad (n : Nat) (locals : List SlotType) : List SlotType :=
  locals ++ List.replicate (n - locals.length) top

/-- Is the slot the first of a wide value? -/
def isWideAt (locals : List SlotType) (i : Nat) : Bool :=
  match locals[i]? with
  | some t => t.isWide
  | none => false

/-- A value put into locals. What it cuts in half is gone. -/
def storeLocal (locals : List SlotType) (i : Nat) (kind : Kind) (value : SlotType) :
    List SlotType :=
  let locals := pad (i + kind.slots) locals
  let locals := if 0 < i ∧ isWideAt locals (i - 1) then locals.set (i - 1) top else locals
  let locals :=
    if kind.slots = 2 ∨ isWideAt locals i then locals.set (i + 1) top else locals
  locals.set i value

/-! ## Stack -/

/-- A value on the stack. -/
def push (t : SlotType) (s : TypeState) : TypeState :=
  { s with stack := t :: s.stack }

/-- The value on top of the stack, and the state without it. -/
def pop (s : TypeState) : Except StepFault (SlotType × TypeState) :=
  match s.stack with
  | [] => .error .underflow
  | t :: rest => .ok (t, { s with stack := rest })

/-- The value on top of the stack, which must be of a kind. -/
def popFitting (kind : Kind) (s : TypeState) : Except StepFault (SlotType × TypeState) := do
  let (t, s) ← s.pop
  if t.fits kind then return (t, s) else throw .operandType

/-- The state without the value on top of the stack, which must be of a kind. -/
def dropKind (kind : Kind) (s : TypeState) : Except StepFault TypeState := do
  let (_, s) ← s.popFitting kind
  return s

/-- The state without arguments, the last one of which lies on top. -/
def dropArguments (s : TypeState) : (reversed : List JvmType) → Except StepFault TypeState
  | [] => .ok s
  | t :: rest =>
    match Kind.ofType t with
    | none => .error .voidParameter
    | some kind => do
      let s ← s.dropKind kind
      dropArguments s rest

/-! ## Instructions -/

/-- An element of an array. -/
def elementOf : SlotType → Except StepFault SlotType
  | .null => .ok .null
  | .object name =>
    match name.toList with
    | '[' :: '[' :: rest => .ok (.object (String.ofList ('[' :: rest)))
    | '[' :: 'L' :: rest =>
      match rest.reverse with
      | ';' :: reversed => .ok (.object (String.ofList reversed.reverse))
      | _ => .error .primitiveArray
    | '[' :: _ => .error .primitiveArray
    | _ => .error .noArray
  | _ => .error .noArray

/-- An array of elements of a class. -/
def arrayOf (element : String) : SlotType :=
  .object (if element.startsWith "[" then "[" ++ element else "[L" ++ element ++ ";")

/-- The value that a constructor leaves in place of its receiver. -/
def constructed (m : MethodHeader) : SlotType → Except StepFault SlotType
  | .uninitializedThis => .ok (.object m.thisClass)
  | .uninitialized _ name => .ok (.object name)
  | _ => .error .initialized

/-- The state with a value put in place of another one. -/
def replace (old new : SlotType) (s : TypeState) : TypeState :=
  let swap t := if t = old then new else t
  ⟨s.locals.map swap, s.stack.map swap⟩

/-- The state without the receiver of a call. A constructor completes it wherever it lies. -/
def dropReceiver (m : MethodHeader) (kind : CallKind) (method : MethodRef) (s : TypeState) :
    Except StepFault TypeState :=
  match kind with
  | .static => .ok s
  | _ => do
    let (t, s) ← s.popFitting .reference
    if kind = .special ∧ method.name = constructorName then
      return s.replace t (← constructed m t)
    else return s

/-- The state behind a call. -/
def call (m : MethodHeader) (kind : CallKind) (method : MethodRef) (s : TypeState) :
    Except StepFault TypeState :=
  match JvmType.ofMethodDescriptor method.descriptor with
  | .error _ => .error .methodDescriptor
  | .ok (params, result) => do
    let s ← s.dropArguments params.reverse
    let s ← s.dropReceiver m kind method
    match SlotType.ofType result with
    | some t => return s.push t
    | none => return s

/-- What is known of the value of a field. -/
def fieldValue (field : FieldRef) : Except StepFault SlotType :=
  match JvmType.ofDescriptor field.descriptor with
  | .error _ => .error .fieldDescriptor
  | .ok t =>
    match SlotType.ofType t with
    | some t => .ok t
    | none => .error .fieldDescriptor

/-- The state behind an instruction at an offset. -/
def step {L : Type} (m : MethodHeader) (offset : Nat) (s : TypeState) :
    Op L → Except StepFault TypeState
  | .null => .ok (s.push .null)
  | .int _ => .ok (s.push .int)
  | .string _ => .ok (s.push (.object "java/lang/String"))
  | .classOf _ => .ok (s.push (.object "java/lang/Class"))
  | .load kind index =>
    match s.locals[index.toNat]? with
    | none => .error .undefinedLocal
    | some t => if t.fits kind then .ok (s.push t) else .error .loadType
  | .store kind index => do
    let (t, s) ← s.popFitting kind
    return { s with locals := storeLocal s.locals index.toNat kind t }
  | .arrayLoad => do
    let s ← s.dropKind .int
    let (array, s) ← s.popFitting .reference
    return s.push (← elementOf array)
  | .arrayStore => do
    let s ← s.dropKind .reference
    let s ← s.dropKind .int
    s.dropKind .reference
  | .pop => do
    let (t, s) ← s.pop
    if t.isWide then throw .popOfWide else return s
  | .dup =>
    match s.stack with
    | [] => .error .underflow
    | t :: _ => if t.isWide then .error .dupOfWide else .ok (s.push t)
  | .ret none => .ok s
  | .ret (some kind) => s.dropKind kind
  | .getStatic field => do return s.push (← fieldValue field)
  | .putStatic _ => do
    let (_, s) ← s.pop
    return s
  | .getField field => do
    let s ← s.dropKind .reference
    return s.push (← fieldValue field)
  | .putField _ => do
    let (_, s) ← s.pop
    s.dropKind .reference
  | .invoke kind method => s.call m kind method
  | .new name => .ok (s.push (.uninitialized offset name))
  | .newArray element => do
    let s ← s.dropKind .int
    return s.push (arrayOf element)
  | .cast name => do
    let s ← s.dropKind .reference
    return s.push (.object name)
  | .throw | .monitorEnter | .monitorExit => s.dropKind .reference
  | .jump .always _ => .ok s
  | .jump _ _ => s.dropKind .reference
  | .lookupSwitch _ _ => s.dropKind .int

/-! ## Where ways meet -/

/-- The merged stack of two of one height, unless two values agree on nothing. -/
def mergeStack (offset : Nat) (a b : List SlotType) : Except CodeDefect (List SlotType) :=
  if a.length ≠ b.length then .error (.stackHeight offset)
  else
    let merged := List.zipWith SlotType.merge a b
    if merged.any (· = top) then .error (.stackValues offset) else .ok merged

/-- The merged locals, as many as the longer side has. -/
def mergeLocals (a b : List SlotType) : List SlotType :=
  List.zipWith SlotType.merge (pad b.length a) (pad a.length b)

/-- Do two lists differ at an index that both have? -/
def differ (a b : List SlotType) : Bool :=
  (List.zip a b).any fun (x, y) => x ≠ y

/-- A state and one that arrives at the same place, merged; and whether the first one lost
anything by it. -/
def merge (offset : Nat) (s arriving : TypeState) : Except CodeDefect (TypeState × Bool) := do
  let stack ← mergeStack offset s.stack arriving.stack
  let locals := mergeLocals s.locals arriving.locals
  return (⟨locals, stack⟩, differ s.stack stack || differ s.locals locals)

end TypeState

end Code

end ProxyForge
