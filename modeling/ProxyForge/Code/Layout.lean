import ProxyForge.ClassFile.Opcode
import ProxyForge.Code.Body
import ProxyForge.Code.PoolBuilder
/-!
# Layout

A program becomes bytes in three passes: its constants get indexes, its instructions get offsets,
and then every operand is known. The size of an instruction depends on its operands and, for a
switch, on its offset alone, so the offsets are right when the bytes are written.
-/

namespace ProxyForge

namespace Code

/-- A program as bytes. -/
structure Layout where
  code : Bytes
  /-- The offset of each instruction, and the length of the code behind them. -/
  offsets : Array Nat
  /-- The constant of each instruction, zero where there is none. -/
  constants : List UInt16
  deriving DecidableEq, Repr

namespace Layout

/-- The offset of a position. -/
def offsetAt (offsets : Array Nat) (position : Nat) : Nat :=
  offsets.getD position 0

end Layout

namespace Op

/-! ## Constants -/

/-- Does the number fit into a signed byte? -/
def isByte (value : Int32) : Bool :=
  -128 ≤ value.toInt && value.toInt ≤ 127

/-- Does the number fit into two signed bytes? -/
def isShort (value : Int32) : Bool :=
  -32768 ≤ value.toInt && value.toInt ≤ 32767

/-- Has the number an opcode of its own? -/
def isTiny (value : Int32) : Bool :=
  -1 ≤ value.toInt && value.toInt ≤ 5

/-- The index of a field. -/
def internField (f : FieldRef) : Interner UInt16 :=
  Interner.fieldRef f.owner f.name f.descriptor

/-- The index of the instruction's constant, zero if it has none. -/
def intern {L : Type} : Op L → Interner UInt16
  | int value => if isShort value then return 0 else Interner.integer value
  | string value => Interner.string value
  | classOf name => Interner.classRef name
  | new name => Interner.classRef name
  | newArray element => Interner.classRef element
  | cast name => Interner.classRef name
  | getStatic field => internField field
  | putStatic field => internField field
  | getField field => internField field
  | putField field => internField field
  | invoke _ method =>
    Interner.methodRef method.owner method.name method.descriptor method.inInterface
  | _ => return 0

/-! ## Sizes -/

/-- The size of an instruction that loads a constant. -/
def constantSize (constant : UInt16) : Nat :=
  if constant ≤ 255 then 2 else 3

/-- The size of a load or a store. -/
def localWidth (index : UInt16) : Nat :=
  if index ≤ 3 then 1 else if index ≤ 255 then 2 else 4

/-- The bytes between the opcode of a switch at an offset and its operands. -/
def paddingAt (offset : Nat) : Nat :=
  (4 - (offset + 1) % 4) % 4

/-- The size of the instruction at an offset. -/
def size {L : Type} (constant : UInt16) (offset : Nat) : Op L → Nat
  | int value =>
    if isTiny value then 1 else if isByte value then 2 else if isShort value then 3
    else constantSize constant
  | string _ => constantSize constant
  | classOf _ => constantSize constant
  | load _ index => localWidth index
  | store _ index => localWidth index
  | invoke .interface _ => 5
  | getStatic _ | putStatic _ | getField _ | putField _ | invoke _ _ | new _ | newArray _
  | cast _ | jump _ _ => 3
  | lookupSwitch _ cases => 1 + paddingAt offset + 8 + 8 * cases.length
  | _ => 1

/-! ## Bytes -/

/-- An opcode and an index of two bytes. -/
def withIndex (op : Opcode) (index : UInt16) : Bytes :=
  op :: Bytes.be16 index

/-- The bytes that load a constant. -/
def encodeConstant (constant : UInt16) : Bytes :=
  if constant ≤ 255 then [Opcode.ldc, constant.toUInt8] else withIndex Opcode.ldcW constant

/-- The bytes of a load or a store, in the shortest of its three forms. -/
def encodeLocal (long short : Opcode) (kind : Kind) (index : UInt16) : Bytes :=
  if index ≤ 3 then [short + 4 * kind.index + index.toUInt8]
  else if index ≤ 255 then [long + kind.index, index.toUInt8]
  else Opcode.wide :: withIndex (long + kind.index) index

/-- The bytes that push a number. -/
def encodeInt (constant : UInt16) (value : Int32) : Bytes :=
  if isTiny value then [Opcode.iconst0 + value.toInt8.toUInt8]
  else if isByte value then [Opcode.bipush, value.toInt8.toUInt8]
  else if isShort value then withIndex Opcode.sipush value.toInt16.toUInt16
  else encodeConstant constant

/-- The opcode of a call. -/
def callOpcode : CallKind → Opcode
  | .virtual => Opcode.invokevirtual
  | .special => Opcode.invokespecial
  | .static => Opcode.invokestatic
  | .interface => Opcode.invokeinterface

/-- The opcode of a jump. -/
def jumpOpcode : JumpKind → Opcode
  | .always => Opcode.goto
  | .ifNull => Opcode.ifnull
  | .ifNonNull => Opcode.ifnonnull

/-- The slots of a call through an interface, the receiver's included. -/
def argumentCount (descriptor : String) : Except CodeDefect UInt8 :=
  match JvmType.ofMethodDescriptor descriptor with
  | .error e => .error (.descriptor e)
  | .ok (params, _) =>
    let slots := 1 + JvmType.totalSlots params
    if slots ≤ 255 then .ok slots.toUInt8 else .error .tooManyArguments

/-- The bytes of a call. -/
def encodeCall (constant : UInt16) (kind : CallKind) (method : MethodRef) :
    Except CodeDefect Bytes :=
  match kind with
  | .interface => do
    return withIndex Opcode.invokeinterface constant ++
      [← argumentCount method.descriptor, 0]
  | _ => .ok (withIndex (callOpcode kind) constant)

/-- The distance from an offset to a target. -/
def distance (offset target : Nat) : Int :=
  (target : Int) - offset

/-- The bytes of a distance in a switch. -/
def encodeDistance (offset target : Nat) : Bytes :=
  Bytes.be32 (Int32.ofInt (distance offset target)).toUInt32

/-- The bytes of one case. -/
def encodeCase (offset : Nat) (key : Int32) (target : Nat) : Bytes :=
  Bytes.be32 key.toUInt32 ++ encodeDistance offset target

/-- Do two neighbours have one key? -/
def hasRepeatedKey {L : Type} : List (Int32 × L) → Bool
  | a :: b :: rest => a.1 = b.1 || hasRepeatedKey (b :: rest)
  | _ => false

/-- Cases in ascending order of their keys. -/
def sortCases {L : Type} (cases : List (Int32 × L)) : List (Int32 × L) :=
  cases.mergeSort fun a b => a.1 ≤ b.1

/-- The bytes of a switch. -/
def encodeSwitch (offsets : Array Nat) (offset fallback : Nat) (cases : List (Int32 × Nat)) :
    Except CodeDefect Bytes :=
  let sorted := sortCases cases
  if hasRepeatedKey sorted then .error (.duplicateKey offset)
  else .ok (Opcode.lookupswitch :: List.replicate (paddingAt offset) 0 ++
    encodeDistance offset (Layout.offsetAt offsets fallback) ++
    Bytes.be32 (Bytes.length32 sorted) ++
    sorted.flatMap fun (key, target) => encodeCase offset key (Layout.offsetAt offsets target))

/-- The bytes of a jump. Its distance must fit into two bytes. -/
def encodeJump (method : String) (offset target : Nat) (kind : JumpKind) :
    Except EmissionError Bytes :=
  let distance := distance offset target
  if -32768 ≤ distance ∧ distance ≤ 32767 then
    .ok (withIndex (jumpOpcode kind) (Int16.ofInt distance).toUInt16)
  else .error (.branchOutOfRange method offset)

/-- The bytes of the instruction at an offset. -/
def encode (method : String) (offsets : Array Nat) (constant : UInt16) (offset : Nat) :
    Op Nat → Except EmissionError Bytes
  | null => .ok [Opcode.aconstNull]
  | int value => .ok (encodeInt constant value)
  | string _ => .ok (encodeConstant constant)
  | classOf _ => .ok (encodeConstant constant)
  | load kind index => .ok (encodeLocal Opcode.iload Opcode.iload0 kind index)
  | store kind index => .ok (encodeLocal Opcode.istore Opcode.istore0 kind index)
  | arrayLoad => .ok [Opcode.aaload]
  | arrayStore => .ok [Opcode.aastore]
  | pop => .ok [Opcode.pop]
  | dup => .ok [Opcode.dup]
  | ret none => .ok [Opcode.voidReturn]
  | ret (some kind) => .ok [Opcode.ireturn + kind.index]
  | getStatic _ => .ok (withIndex Opcode.getstatic constant)
  | putStatic _ => .ok (withIndex Opcode.putstatic constant)
  | getField _ => .ok (withIndex Opcode.getfield constant)
  | putField _ => .ok (withIndex Opcode.putfield constant)
  | invoke kind target => (encodeCall constant kind target).mapError (.invalidCode method)
  | new _ => .ok (withIndex Opcode.new constant)
  | newArray _ => .ok (withIndex Opcode.anewarray constant)
  | cast _ => .ok (withIndex Opcode.checkcast constant)
  | throw => .ok [Opcode.athrow]
  | monitorEnter => .ok [Opcode.monitorenter]
  | monitorExit => .ok [Opcode.monitorexit]
  | jump kind target => encodeJump method offset (Layout.offsetAt offsets target) kind
  | lookupSwitch fallback cases =>
    (encodeSwitch offsets offset fallback cases).mapError (.invalidCode method)

end Op

namespace Layout

/-- The greatest length of code. -/
def limit : Nat := 65535

/-- The offsets of instructions from an offset on, and the offset behind them. An offset beyond
the limit is the error. -/
def offsetsFrom (offset : Nat) (acc : Array Nat) :
    List (Op Nat × UInt16) → Except Nat (Array Nat)
  | [] => .ok (acc.push offset)
  | (op, constant) :: rest =>
    let next := offset + op.size constant offset
    if limit < next then .error next else offsetsFrom next (acc.push offset) rest

/-- The offsets of a method's instructions. -/
def offsetsOf (method : String) (ops : List (Op Nat × UInt16)) :
    Except EmissionError (Array Nat) :=
  (offsetsFrom 0 #[] ops).mapError (.codeTooLarge method)

/-- The bytes of a method's instructions. -/
def encodeOps (method : String) (offsets : Array Nat) (ops : List (Op Nat × UInt16)) :
    Except EmissionError Bytes := do
  let pieces ← ops.zipIdx.mapM fun ((op, constant), position) =>
    op.encode method offsets constant (offsetAt offsets position)
  return pieces.flatten

/-- A method's program as bytes. -/
def ofProgram (method : String) (p : Program) : Interner Layout := do
  let ops := p.ops.toList
  let constants ← ops.mapM Op.intern
  let numbered := ops.zip constants
  let offsets ← Interner.lift (offsetsOf method numbered)
  let code ← Interner.lift (encodeOps method offsets numbered)
  return ⟨code, offsets, constants⟩

end Layout

/-- The program of a method's body. -/
def Body.program (method : String) (b : Body) : Except EmissionError Program :=
  b.resolve.mapError (.invalidCode method)

end Code

end ProxyForge
