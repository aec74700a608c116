import ProxyForge.Bytes.Decoder
import ProxyForge.ClassFile.Opcode
/-!
# Instructions

Bytecode as a list of instructions, each with its offset and its operands. Jump targets are
absolute offsets, as words of thirty-two bits: a jump before the start of the code wraps around.
-/

namespace ProxyForge

/-- The operands of an instruction. -/
inductive Operand
  | none
  | local (index : UInt16)
  | int (value : Int32)
  | constant (index : UInt16)
  | increment (index : UInt16) (delta : Int16)
  | branch (target : UInt32)
  | tableSwitch (fallback : UInt32) (low : Int32) (targets : List UInt32)
  | lookupSwitch (fallback : UInt32) (cases : List (Int32 × UInt32))
  | interfaceCall (index : UInt16) (count : UInt8)
  | newArray (element : UInt8)
  | newMultiArray (index : UInt16) (dimensions : UInt8)
  deriving DecidableEq, Repr, Inhabited

/-- An instruction where it stands in the code. -/
structure Instruction where
  offset : Nat
  opcode : Opcode
  /-- Behind the `wide` opcode? -/
  isWide : Bool
  operand : Operand
  deriving DecidableEq, Repr, Inhabited

namespace Instruction

/-- The mnemonic. -/
def mnemonic (i : Instruction) : String :=
  i.opcode.mnemonic.getD "?"

/-- The constant that the instruction refers to. -/
def constant (i : Instruction) : Option UInt16 :=
  match i.operand with
  | .constant index => some index
  | .interfaceCall index _ => some index
  | .newMultiArray index _ => some index
  | _ => none

/-- Where the instruction may jump, the default of a switch first. -/
def targets (i : Instruction) : List UInt32 :=
  match i.operand with
  | .branch target => [target]
  | .tableSwitch fallback _ targets => fallback :: targets
  | .lookupSwitch fallback cases => fallback :: cases.map (·.2)
  | _ => []

/-! ## Reading -/

/-- The target of a jump at an offset. -/
def target (offset : Nat) (distance : Int32) : UInt32 :=
  UInt32.ofNat offset + distance.toUInt32

/-- The operands of a switch begin at a multiple of four. -/
def padding (offset : Nat) : Nat :=
  (4 - offset % 4) % 4

/-- Pass over the bytes in front of a switch's operands. -/
def skipPadding : Decoder Unit := do
  Decoder.skip (padding (← Decoder.offset))

/-- A jump target, as a distance from the offset. -/
def decodeTarget (offset : Nat) : Decoder UInt32 := do
  return target offset (← Decoder.i32)

/-- A key and its jump target. -/
def decodeCase (offset : Nat) : Decoder (Int32 × UInt32) := do
  let key ← Decoder.i32
  return (key, ← decodeTarget offset)

/-- What is wrong with a switch whose bounds are out of order. -/
def malformedSwitch : FormatError :=
  .malformedAttribute "Code"

/-- A switch over consecutive keys. -/
def decodeTableSwitch (offset : Nat) : Decoder Operand := do
  skipPadding
  let fallback ← decodeTarget offset
  let low ← Decoder.i32
  let high ← Decoder.i32
  if high < low then Decoder.fail malformedSwitch
  else
    let count := (high.toInt - low.toInt + 1).toNat
    return .tableSwitch fallback low (← Decoder.times count (decodeTarget offset))

/-- A switch over listed keys. -/
def decodeLookupSwitch (offset : Nat) : Decoder Operand := do
  skipPadding
  let fallback ← decodeTarget offset
  let count ← Decoder.i32
  if count < 0 then Decoder.fail malformedSwitch
  else return .lookupSwitch fallback (← Decoder.times count.toInt.toNat (decodeCase offset))

/-- The operands of a shape, for the instruction at an offset. -/
def decodeOperand (offset : Nat) (isWide : Bool) : Opcode.Shape → Decoder Operand
  | .none => return .none
  | .wide => return .none
  | .local =>
    if isWide then do return .local (← Decoder.u16)
    else do return .local (← Decoder.u8).toUInt16
  | .byte => do return .int (← Decoder.i8).toInt32
  | .short => do return .int (← Decoder.i16).toInt32
  | .constant8 => do return .constant (← Decoder.u8).toUInt16
  | .constant16 => do return .constant (← Decoder.u16)
  | .increment =>
    if isWide then do
      let index ← Decoder.u16
      return .increment index (← Decoder.i16)
    else do
      let index ← Decoder.u8
      return .increment index.toUInt16 (← Decoder.i8).toInt16
  | .branch16 => do return .branch (target offset (← Decoder.i16).toInt32)
  | .branch32 => do return .branch (← decodeTarget offset)
  | .tableSwitch => decodeTableSwitch offset
  | .lookupSwitch => decodeLookupSwitch offset
  | .interfaceCall => do
    let index ← Decoder.u16
    let count ← Decoder.u8
    Decoder.skip 1
    return .interfaceCall index count
  | .dynamicCall => do
    let index ← Decoder.u16
    Decoder.skip 2
    return .constant index
  | .newArray => do return .newArray (← Decoder.u8)
  | .newMultiArray => do
    let index ← Decoder.u16
    return .newMultiArray index (← Decoder.u8)

/-- One instruction. Only its first byte must have a mnemonic. -/
def decode : Decoder Instruction := do
  let offset ← Decoder.offset
  let first ← Decoder.u8
  match Opcode.mnemonic first with
  | none => Decoder.fail (.unknownOpcode first offset)
  | some _ =>
    let isWide := first == Opcode.wide
    let opcode ← if isWide then Decoder.u8 else pure first
    let operand ← decodeOperand offset isWide (Opcode.shape opcode)
    return ⟨offset, opcode, isWide, operand⟩

/-- Instructions up to the end, behind those in `acc`. Each takes a byte at least, so the bytes
left bound their number (`fuel`). -/
def decodeAllOnto (acc : List Instruction) : (fuel : Nat) → Decoder (List Instruction)
  | 0 => return acc.reverse
  | fuel + 1 => do
    if ← Decoder.atEnd then return acc.reverse
    else
      let i ← decode
      decodeAllOnto (i :: acc) fuel

/-- The instructions of a method's code. -/
def decodeAll (code : Bytes) : Except FormatError (List Instruction) :=
  (decodeAllOnto [] code.length).run code

end Instruction

end ProxyForge
