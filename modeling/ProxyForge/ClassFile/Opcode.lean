import ProxyForge.Text.Hex
/-!
# Opcodes

The first byte of an instruction: its mnemonic, the shape of the operands behind it, and whether
control can pass on to the next instruction. Bytes above `c9` are reserved.
-/

namespace ProxyForge

/-- The first byte of an instruction. -/
abbrev Opcode := UInt8

namespace Opcode

/-- The mnemonics, by opcode. -/
def mnemonics : Array String := #[
  "nop", "aconst_null", "iconst_m1", "iconst_0", "iconst_1", "iconst_2", "iconst_3", "iconst_4",
  "iconst_5", "lconst_0", "lconst_1", "fconst_0", "fconst_1", "fconst_2", "dconst_0", "dconst_1",
  "bipush", "sipush", "ldc", "ldc_w", "ldc2_w", "iload", "lload", "fload", "dload", "aload",
  "iload_0", "iload_1", "iload_2", "iload_3", "lload_0", "lload_1", "lload_2", "lload_3",
  "fload_0", "fload_1", "fload_2", "fload_3", "dload_0", "dload_1", "dload_2", "dload_3",
  "aload_0", "aload_1", "aload_2", "aload_3", "iaload", "laload", "faload", "daload", "aaload",
  "baload", "caload", "saload", "istore", "lstore", "fstore", "dstore", "astore", "istore_0",
  "istore_1", "istore_2", "istore_3", "lstore_0", "lstore_1", "lstore_2", "lstore_3", "fstore_0",
  "fstore_1", "fstore_2", "fstore_3", "dstore_0", "dstore_1", "dstore_2", "dstore_3", "astore_0",
  "astore_1", "astore_2", "astore_3", "iastore", "lastore", "fastore", "dastore", "aastore",
  "bastore", "castore", "sastore", "pop", "pop2", "dup", "dup_x1", "dup_x2", "dup2", "dup2_x1",
  "dup2_x2", "swap", "iadd", "ladd", "fadd", "dadd", "isub", "lsub", "fsub", "dsub", "imul",
  "lmul", "fmul", "dmul", "idiv", "ldiv", "fdiv", "ddiv", "irem", "lrem", "frem", "drem", "ineg",
  "lneg", "fneg", "dneg", "ishl", "lshl", "ishr", "lshr", "iushr", "lushr", "iand", "land", "ior",
  "lor", "ixor", "lxor", "iinc", "i2l", "i2f", "i2d", "l2i", "l2f", "l2d", "f2i", "f2l", "f2d",
  "d2i", "d2l", "d2f", "i2b", "i2c", "i2s", "lcmp", "fcmpl", "fcmpg", "dcmpl", "dcmpg", "ifeq",
  "ifne", "iflt", "ifge", "ifgt", "ifle", "if_icmpeq", "if_icmpne", "if_icmplt", "if_icmpge",
  "if_icmpgt", "if_icmple", "if_acmpeq", "if_acmpne", "goto", "jsr", "ret", "tableswitch",
  "lookupswitch", "ireturn", "lreturn", "freturn", "dreturn", "areturn", "return", "getstatic",
  "putstatic", "getfield", "putfield", "invokevirtual", "invokespecial", "invokestatic",
  "invokeinterface", "invokedynamic", "new", "newarray", "anewarray", "arraylength", "athrow",
  "checkcast", "instanceof", "monitorenter", "monitorexit", "wide", "multianewarray", "ifnull",
  "ifnonnull", "goto_w", "jsr_w"]

/-- The mnemonic, unless the opcode is reserved. -/
def mnemonic (op : Opcode) : Option String :=
  mnemonics[op.toNat]?

/-- The mnemonic, or a mark for a reserved opcode. -/
def display (op : Opcode) : String :=
  match op.mnemonic with
  | some name => name
  | none => "<reserved " ++ Text.hex 2 false op.toNat ++ ">"

/-! ## By name -/

def aconstNull : Opcode := 0x01
def iconst0 : Opcode := 0x03
def bipush : Opcode := 0x10
def sipush : Opcode := 0x11
def ldc : Opcode := 0x12
def ldcW : Opcode := 0x13
def iload : Opcode := 0x15
def aload : Opcode := 0x19
def iload0 : Opcode := 0x1a
def aaload : Opcode := 0x32
def istore : Opcode := 0x36
def astore : Opcode := 0x3a
def istore0 : Opcode := 0x3b
def aastore : Opcode := 0x53
def pop : Opcode := 0x57
def dup : Opcode := 0x59
def iinc : Opcode := 0x84
def goto : Opcode := 0xa7
def jsr : Opcode := 0xa8
def ret : Opcode := 0xa9
def tableswitch : Opcode := 0xaa
def lookupswitch : Opcode := 0xab
def ireturn : Opcode := 0xac
def voidReturn : Opcode := 0xb1
def getstatic : Opcode := 0xb2
def putstatic : Opcode := 0xb3
def getfield : Opcode := 0xb4
def putfield : Opcode := 0xb5
def invokevirtual : Opcode := 0xb6
def invokespecial : Opcode := 0xb7
def invokestatic : Opcode := 0xb8
def invokeinterface : Opcode := 0xb9
def new : Opcode := 0xbb
def anewarray : Opcode := 0xbd
def athrow : Opcode := 0xbf
def checkcast : Opcode := 0xc0
def monitorenter : Opcode := 0xc2
def monitorexit : Opcode := 0xc3
def wide : Opcode := 0xc4
def ifnull : Opcode := 0xc6
def ifnonnull : Opcode := 0xc7
def gotoW : Opcode := 0xc8

/-! ## Operands -/

/-- The operands behind an opcode. -/
inductive Shape
  | none
  /-- A local variable, in two bytes behind `wide`. -/
  | local
  | byte
  | short
  /-- A constant, in one byte. -/
  | constant8
  /-- A constant, in two bytes. -/
  | constant16
  /-- A local variable and a signed increment. -/
  | increment
  | branch16
  | branch32
  | tableSwitch
  | lookupSwitch
  /-- A constant, the count of argument slots and a zero. -/
  | interfaceCall
  /-- A constant and two zeros. -/
  | dynamicCall
  /-- A code for the type of the elements. -/
  | newArray
  /-- A constant and a count of dimensions. -/
  | newMultiArray
  /-- Another opcode, whose operands are wider. -/
  | wide
  deriving DecidableEq, Repr, Inhabited

/-- From `first` to `last`? -/
def between (first last op : Opcode) : Bool :=
  first ≤ op && op ≤ last

/-- The operands behind an opcode; a reserved one has none. -/
def shape (op : Opcode) : Shape :=
  if between 0x15 0x19 op || between 0x36 0x3a op || op = ret then .local
  else if op = bipush then .byte
  else if op = sipush then .short
  else if op = ldc then .constant8
  else if between 0x13 0x14 op || between getstatic invokestatic op || op = new || op = anewarray
      || between 0xc0 0xc1 op then .constant16
  else if op = iinc then .increment
  else if between 0x99 jsr op || op = ifnull || op = ifnonnull then .branch16
  else if between 0xc8 0xc9 op then .branch32
  else if op = tableswitch then .tableSwitch
  else if op = lookupswitch then .lookupSwitch
  else if op = invokeinterface then .interfaceCall
  else if op = 0xba then .dynamicCall
  else if op = 0xbc then .newArray
  else if op = 0xc5 then .newMultiArray
  else if op = wide then .wide
  else .none

/-- Does control never pass on to the instruction behind? -/
def isUnconditional (op : Opcode) : Bool :=
  op = goto || op = gotoW || op = tableswitch || op = lookupswitch ||
    between ireturn voidReturn op || op = athrow || op = ret

end Opcode

end ProxyForge
