import ProxyForge.ClassFile.Class
import ProxyForge.Text.Column
import ProxyForge.Text.Styled
/-!
# Disassembly

A class file for a reader, as styled text: header, fields, and methods with their instructions,
handlers and frames. What an index refers to is shown beside it; one that is of no use there is
shown as such, while one that a declaration needs is an error.
-/

namespace ProxyForge

namespace Disassembly

open Text (Styled)
open Text.Styled (plain styled)

/-- A line of its own. -/
def line (t : Styled) : Styled :=
  t ++ plain "\n"

/-- The keywords of flags, each followed by a space. -/
def flagWords (flags : UInt16) (owner : Access.Owner) : String :=
  String.join ((Access.keywords flags owner).map fun word => word ++ " ")

/-- An index and what it refers to. -/
def constantRef (pool : Pool) (index : UInt16) : Styled :=
  styled .dim s!"#{index}" ++ plain " " ++ styled .dim ("// " ++ pool.describe index)

/-- The word for a verification type. -/
def typeWord (pool : Pool) : VerificationType → String
  | .top => "top"
  | .integer => "int"
  | .float => "float"
  | .double => "double"
  | .long => "long"
  | .null => "null"
  | .uninitializedThis => "uninitialized_this"
  | .object constant => Pool.orUnknown (pool.className constant)
  | .uninitialized offset => s!"uninitialized({offset})"

/-- Verification types between brackets. -/
def listTypes (pool : Pool) (types : List VerificationType) : String :=
  "[" ++ ", ".intercalate (types.map (typeWord pool)) ++ "]"

/-- One arm of a switch. -/
def switchArm (key : Int32) (target : UInt32) : Styled :=
  plain s!" {key}: " ++ styled .yellow (toString target) ++ plain ";"

/-- The arms of a switch between braces. -/
def switchArms (cases : List (Int32 × UInt32)) (fallback : UInt32) : Styled :=
  plain " \x7b" ++ cases.flatMap (fun c => switchArm c.1 c.2) ++ plain " default: " ++
    styled .yellow (toString fallback) ++ plain " \x7d"

/-- The operands of an instruction, each behind a space. -/
def operand (pool : Pool) : Operand → Styled
  | .none => []
  | .local index => plain s!" {index}"
  | .int value => plain " " ++ styled .green (toString value)
  | .constant index => plain " " ++ constantRef pool index
  | .increment index delta => plain s!" {index}, {delta}"
  | .branch target => plain " " ++ styled .yellow (toString target)
  | .tableSwitch fallback low targets =>
    switchArms (targets.zipIdx.map fun (target, i) => (low + Int32.ofNat i, target)) fallback
  | .lookupSwitch fallback cases => switchArms cases fallback
  | .interfaceCall index count => plain " " ++ constantRef pool index ++ plain s!", {count}"
  | .newArray element => plain s!" {element}"
  | .newMultiArray index dimensions =>
    plain " " ++ constantRef pool index ++ plain s!", {dimensions}"

/-- An instruction, its offset at the right edge of a column. -/
def instruction (pool : Pool) (width : Nat) (i : Instruction) : Styled :=
  line (plain "    " ++ styled .dim (Text.padLeft width (toString i.offset)) ++ plain ": " ++
    styled .blue i.mnemonic ++ operand pool i.operand)

/-- A handler. -/
def handler (pool : Pool) (h : HandlerEntry) : Styled :=
  let caught := if h.catchType = 0 then "any" else Pool.orUnknown (pool.className h.catchType)
  line (plain s!"      {h.start} {h.stop} -> " ++ styled .yellow (toString h.handler) ++
    plain (" " ++ caught))

/-- The form of a frame. -/
def frame (pool : Pool) : Frame → String
  | .same _ => "same"
  | .sameWithItem _ item => "same_locals_1_stack_item " ++ listTypes pool [item]
  | .chop _ count => s!"chop {count}"
  | .append _ locals => "append " ++ listTypes pool locals
  | .full _ locals stack =>
    "full locals=" ++ listTypes pool locals ++ " stack=" ++ listTypes pool stack

/-- A frame at its offset. -/
def frameLine (pool : Pool) (f : Frame) (offset : UInt32) : Styled :=
  line (plain "      " ++ styled .yellow (toString offset) ++ plain (": " ++ frame pool f))

/-- A list of lines under a heading, nothing if it is empty. -/
def listing (heading : String) (lines : List Styled) : Styled :=
  if lines.isEmpty then [] else line (plain heading) ++ lines.flatten

/-- The code of a method. -/
def code (pool : Pool) (c : CodeBody) : Except FormatError Styled := do
  let instructions ← c.instructions
  let width := (toString c.code.length).length
  let frames ← c.frames pool
  return line (plain "    " ++ styled .dim s!"stack={c.maxStack}, locals={c.maxLocals}") ++
    instructions.flatMap (instruction pool width) ++
    listing "    exceptions:" (c.handlers.map (handler pool)) ++
    listing "    frames:" (List.zipWith (frameLine pool) frames (Frame.offsets frames))

/-- Names with commas between them behind a word, nothing if there are none. -/
def nameList (word : String) (names : List String) : String :=
  if names.isEmpty then "" else word ++ ", ".intercalate names

/-- A method. -/
def method (c : ClassFile) (m : Member) : Except FormatError Styled := do
  let name ← c.memberName m
  let descriptor ← c.memberDescriptor m
  let thrown ← c.declaredExceptions m
  let body ← match ← c.code m with
    | some body => code c.pool body
    | none => pure []
  return line (plain ("  " ++ flagWords m.access .method) ++ styled .blue name ++
      plain descriptor) ++
    (if thrown.isEmpty then [] else line (plain (nameList "    throws " thrown))) ++ body

/-- A field. -/
def field (c : ClassFile) (m : Member) : Except FormatError Styled := do
  let name ← c.memberName m
  let descriptor ← c.memberDescriptor m
  return line (plain ("  " ++ flagWords m.access .field) ++ styled .blue name ++
    plain (": " ++ descriptor))

/-- The heading of a part. -/
def heading (name : String) : Styled :=
  plain "\n" ++ line (styled .blue ("[" ++ name ++ "]"))

/-- What is said of the class itself. -/
def header (c : ClassFile) : Except FormatError Styled := do
  let name ← c.thisName
  let superName ← c.superName
  let interfaces ← c.interfaceNames
  let source ← c.sourceFile
  let annotations ← c.annotationTypes
  let word := if Access.has c.access Access.isInterface then "" else "class "
  return line (plain (flagWords c.access .type ++ word) ++ styled .blue name ++
      plain (match superName with
        | some superName => " extends " ++ superName
        | none => "") ++
      plain (nameList " implements " interfaces)) ++
    line (plain "  " ++
      styled .dim s!"version {c.major}.{c.minor}, constants {c.pool.count}") ++
    (match source with
      | some source => line (plain "  source: " ++ styled .green source)
      | none => []) ++
    annotations.flatMap fun type => line (plain ("  @" ++ type))

/-- The fields, if there are any. -/
def fields (c : ClassFile) : Except FormatError Styled := do
  if c.fields.isEmpty then return []
  else return heading "fields" ++ (← c.fields.mapM (field c)).flatten

/-- The methods, with an empty line between them. -/
def methods (c : ClassFile) : Except FormatError Styled := do
  return heading "methods" ++ List.intercalate (plain "\n") (← c.methods.mapM (method c))

/-- A class file for a reader. -/
def ofClass (c : ClassFile) : Except FormatError Styled := do
  let head ← header c
  let fields ← fields c
  return head ++ fields ++ (← methods c)

end Disassembly

end ProxyForge
