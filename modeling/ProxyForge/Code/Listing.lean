import ProxyForge.Code.Body
import ProxyForge.Json.Access
/-!
# Listings

A body can be written down as JSON: an array with an array for each instruction, a word first and
then the operands, as in `["load", "int", 1]`. Labels are texts and are bound by lines such as
`["mark", "loop"]`. A line `["repeat", 3, […]]` stands for three copies of lines, and
`["throw_new", …]` for the instructions that throw a new object.
-/

namespace ProxyForge

namespace Code

/-! ## Words -/

/-- The word of a kind. -/
def Kind.word : Kind → String
  | int => "int"
  | long => "long"
  | float => "float"
  | double => "double"
  | reference => "ref"

/-- The kind of a word. -/
def Kind.ofWord : String → Kind
  | "int" => int
  | "long" => long
  | "float" => float
  | "double" => double
  | _ => reference

/-- The word of a way to choose a method. -/
def CallKind.word : CallKind → String
  | virtual => "virtual"
  | special => "special"
  | static => "static"
  | interface => "interface"

/-- The way to choose a method, for a word. -/
def CallKind.ofWord : String → CallKind
  | "special" => special
  | "static" => static
  | "interface" => interface
  | _ => virtual

/-- The word of a jump. -/
def JumpKind.word : JumpKind → String
  | always => "goto"
  | ifNull => "ifnull"
  | ifNonNull => "ifnonnull"

/-- The jump of a word. -/
def JumpKind.ofWord : String → JumpKind
  | "ifnull" => ifNull
  | "ifnonnull" => ifNonNull
  | _ => always

/-! ## Writing -/

namespace Op

/-- A line of texts. -/
def wordLine (words : List String) : Json :=
  .arr (words.map Json.str)

/-- A line that names a field. -/
def fieldLine (word : String) (field : FieldRef) : Json :=
  wordLine [word, field.owner, field.name, field.descriptor]

/-- A line that names a local variable. -/
def localLine (word : String) (kind : Kind) (index : UInt16) : Json :=
  .arr [.str word, .str kind.word, .int index.toNat]

/-- An instruction as a line. -/
def toJson {L : Type} (label : L → Json) : Op L → Json
  | null => wordLine ["aconst_null"]
  | int value => .arr [.str "iconst", .int value.toInt]
  | string value => wordLine ["ldc_string", value]
  | classOf name => wordLine ["ldc_class", name]
  | load kind index => localLine "load" kind index
  | store kind index => localLine "store" kind index
  | arrayLoad => wordLine ["aaload"]
  | arrayStore => wordLine ["aastore"]
  | pop => wordLine ["pop"]
  | dup => wordLine ["dup"]
  | ret kind => .arr [.str "return", (kind.map fun k => Json.str k.word).getD .null]
  | getStatic field => fieldLine "getstatic" field
  | putStatic field => fieldLine "putstatic" field
  | getField field => fieldLine "getfield" field
  | putField field => fieldLine "putfield" field
  | invoke kind method =>
    .arr [.str "invoke", .str kind.word, .str method.owner, .str method.name,
      .str method.descriptor, .bool method.inInterface]
  | new name => wordLine ["new", name]
  | newArray element => wordLine ["anewarray", element]
  | cast name => wordLine ["checkcast", name]
  | throw => wordLine ["athrow"]
  | monitorEnter => wordLine ["monitorenter"]
  | monitorExit => wordLine ["monitorexit"]
  | jump kind target => .arr [.str kind.word, label target]
  | lookupSwitch fallback cases =>
    .arr [.str "lookupswitch", label fallback,
      .arr (cases.map fun (key, target) => .arr [.int key.toInt, label target])]

end Op

/-! ## Reading -/

/-- Labels by their texts; they are numbered in the order in which they are met. -/
abbrev LabelNames := StateM (Std.HashMap String Label)

namespace LabelNames

/-- The label for a text. -/
def get (j : Json) : LabelNames Label :=
  modifyGet fun known =>
    match known[j.text]? with
    | some label => (label, known)
    | none => (known.size, known.insert j.text known.size)

end LabelNames

namespace Line

/-- An instruction without labels, from its word and the line with its operands. -/
def opOfJson (word : String) (line : Json) : Op Label :=
  let first := line.item 1
  let second := line.item 2
  let third := (line.item 3).text
  let field : FieldRef := ⟨first.text, second.text, third⟩
  match word with
  | "iconst" => .int first.whole32
  | "ldc_string" => .string first.text
  | "ldc_class" => .classOf first.text
  | "load" => .load (Kind.ofWord first.text) second.whole16
  | "store" => .store (Kind.ofWord first.text) second.whole16
  | "aaload" => .arrayLoad
  | "aastore" => .arrayStore
  | "pop" => .pop
  | "dup" => .dup
  | "return" => .ret (first.text?.map Kind.ofWord)
  | "getstatic" => .getStatic field
  | "putstatic" => .putStatic field
  | "getfield" => .getField field
  | "putfield" => .putField field
  | "invoke" =>
    .invoke (CallKind.ofWord first.text)
      ⟨second.text, third, (line.item 4).text, (line.item 5).isTrue⟩
  | "new" => .new first.text
  | "anewarray" => .newArray first.text
  | "checkcast" => .cast first.text
  | "athrow" => .throw
  | "monitorenter" => .monitorEnter
  | "monitorexit" => .monitorExit
  | _ => .null

/-- The words of jumps. -/
def jumpWords : List String := ["goto", "ifnull", "ifnonnull"]

/-- What a line stands for, unless it repeats others. -/
def ofJson (line : Json) : LabelNames (List Line) := do
  let word := (line.item 0).text
  let first := line.item 1
  if jumpWords.contains word then
    return [.op (.jump (JumpKind.ofWord word) (← LabelNames.get first))]
  else if word = "lookupswitch" then
    let fallback ← LabelNames.get first
    let cases ← (line.item 2).items.mapM fun c => do
      return ((c.item 0).whole32, ← LabelNames.get (c.item 1))
    return [.op (.lookupSwitch fallback cases)]
  else if word = "mark" then return [.mark (← LabelNames.get first)]
  else if word = "throw_new" then return straight (Op.throwNew first.text (line.item 2).text)
  else return [.op (opOfJson word line)]

mutual
/-- What a line stands for. -/
def expand : Json → LabelNames (List Line)
  | .arr [.str "repeat", count, .arr inner] => do
    return (List.replicate count.whole.toNat (← expandAll inner)).flatten
  | line => ofJson line

/-- What lines stand for. -/
def expandAll : List Json → LabelNames (List Line)
  | [] => return []
  | line :: rest => do
    let lines ← expand line
    return lines ++ (← expandAll rest)
end

end Line

/-- A handler, from the labels of its range and its place, and what it catches. -/
def Handler.ofJson (j : Json) : LabelNames (Handler Label) := do
  let start ← LabelNames.get (j.item 0)
  let stop ← LabelNames.get (j.item 1)
  let handler ← LabelNames.get (j.item 2)
  return ⟨start, stop, handler, (j.item 3).text?⟩

/-- The body of a listing and of a list of handlers. -/
def Body.ofJson (listing handlers : Json) : Body :=
  let body : LabelNames Body := do
    let lines ← Line.expandAll listing.items
    return ⟨lines, ← handlers.items.mapM Handler.ofJson⟩
  (body.run ∅).1

end Code

end ProxyForge
