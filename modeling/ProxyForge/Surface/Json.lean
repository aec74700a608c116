import ProxyForge.Surface.Basic
import ProxyForge.Json.Decode
/-!
# Surfaces as JSON

A surface is a JSON array of contracts. `toJson` writes every field; reading lets fields with a
usual value be absent and ignores keys that it does not know.

A contract may also be given as an array of its fields in their order. The signature of a method
lies flat among the method's own fields and is looked at when the whole method has been read.
-/

namespace ProxyForge

/-! ## Writing -/

/-- A type is a string, its source form. -/
def JvmType.toJson (t : JvmType) : Json :=
  .str t.sourceName

/-- The fields of a signature. -/
def Signature.jsonFields (s : Signature) : List (String × Json) :=
  [("name", .str s.name), ("params", .arr (s.params.map JvmType.toJson)),
    ("returns", s.result.toJson)]

/-- A signature as an object. -/
def Signature.toJson (s : Signature) : Json :=
  .obj s.jsonFields

/-- A method as an object. -/
def Method.toJson (m : Method) : Json :=
  .obj (m.signature.jsonFields ++
    [("visibility", .str m.visibility.keyword), ("final", .bool m.isFinal),
      ("static", .bool m.isStatic), ("throws", .arr (m.exceptions.map Json.str))] ++
    m.declaredIn.toList.map fun owner => ("declaredIn", .str owner))

/-- The word for a kind of contract. -/
def ContractKind.word : ContractKind → String
  | interface => "interface"
  | baseClass => "class"

/-- A contract as an object. -/
def Contract.toJson (c : Contract) : Json :=
  .obj [("name", .str c.name), ("kind", .str c.kind.word),
    ("visibility", .str c.visibility.keyword), ("final", .bool c.isFinal),
    ("abstract", .bool c.isAbstract), ("methods", .arr (c.methods.map Method.toJson)),
    ("constructors", .arr (c.constructors.map fun params => .arr (params.map JvmType.toJson)))]

/-- A surface as an array. -/
def Surface.toJson (s : Surface) : Json :=
  .arr (s.contracts.map Contract.toJson)

/-! ## Reading -/

open Json (Node Read ReadError Piece Ending once required refuse stop)

/-- A type from its source form. -/
def JvmType.ofText (text : String) : Read JvmType :=
  match JvmType.ofSourceName text with
  | .ok t => .ok t
  | .error e => refuse (.refused e.message)

/-- A type. -/
def JvmType.ofNode (n : Node) : Read JvmType := do
  JvmType.ofText (← n.asString)

/-- A type. -/
def JvmType.ofJson (j : Json) : Read JvmType := do
  JvmType.ofText (← j.asString)

/-- A visibility. -/
def Visibility.ofNode (n : Node) : Read Visibility :=
  n.asVariant (Visibility.all.map fun v => (v.keyword, v))

/-- A kind of contract. -/
def ContractKind.ofNode (n : Node) : Read ContractKind :=
  n.asVariant ([.interface, .baseClass].map fun k => (ContractKind.word k, k))

/-- The fields of a signature as far as they were met. -/
structure Signature.Partial where
  name : Option String := none
  params : Option (List JvmType) := none
  result : Option JvmType := none

/-- One more field; keys that a signature does not have are passed over. -/
def Signature.Partial.add (s : Signature.Partial) (entry : String × Json) :
    Read Signature.Partial :=
  match entry with
  | ("name", j) => do return { s with name := ← once "name" s.name j.asString }
  | ("params", j) => do
    return { s with params := ← once "params" s.params (j.asList JvmType.ofJson) }
  | ("returns", j) => do return { s with result := ← once "returns" s.result (JvmType.ofJson j) }
  | _ => return s

/-- The signature among the fields of an object. A result that is not given is `void`. -/
def Signature.ofEntries (entries : List (String × Json)) : Read Signature := do
  let s ← entries.foldlM Signature.Partial.add {}
  return ⟨← required "name" s.name, s.params.getD [], s.result.getD .void⟩

/-- The fields of a method as far as they were met. `rest` holds the fields that are none of the
method's own, last one first. -/
structure Method.Partial where
  visibility : Option Visibility := none
  isFinal : Option Bool := none
  isStatic : Option Bool := none
  exceptions : Option (List String) := none
  declaredIn : Option (Option String) := none
  rest : List (String × Json) := []

/-- One more field, in an object whose values may nest less than `depth` deep. -/
def Method.Partial.add (depth : Nat) (m : Method.Partial) (entry : List Piece × Node) :
    Read Method.Partial := do
  let (key, node) := entry
  match ← Json.usedText key with
  | "visibility" =>
    return { m with visibility := ← once "visibility" m.visibility (Visibility.ofNode node) }
  | "final" => return { m with isFinal := ← once "final" m.isFinal node.asBool }
  | "static" => return { m with isStatic := ← once "static" m.isStatic node.asBool }
  | "throws" =>
    return { m with exceptions := ← once "throws" m.exceptions (node.asList Node.asString) }
  | "declaredIn" =>
    return { m with
      declaredIn := ← once "declaredIn" m.declaredIn (node.asOption Node.asString) }
  | other => do return { m with rest := (other, ← node.asValue depth) :: m.rest }

/-- A method, in a place where values may nest less than `depth` deep. -/
def Method.ofNode (depth : Nat) : Node → Read Method
  | .record entries ending => do
    let m ← entries.foldlM (Method.Partial.add (depth - 1)) {}
    ending.check
    return {
      signature := ← Signature.ofEntries m.rest.reverse
      visibility := m.visibility.getD .publicAccess
      isFinal := m.isFinal.getD false
      isStatic := m.isStatic.getD false
      exceptions := m.exceptions.getD []
      declaredIn := m.declaredIn.getD none }
  | other => other.wrong "struct MethodDecl"

/-- The fields of a contract as far as they were met. -/
structure Contract.Partial where
  name : Option String := none
  kind : Option ContractKind := none
  visibility : Option Visibility := none
  isFinal : Option Bool := none
  isAbstract : Option Bool := none
  methods : Option (List Method) := none
  constructors : Option (List (List JvmType)) := none

namespace Contract.Partial

/-- The keys in their order. -/
def keys : List String :=
  ["name", "kind", "visibility", "final", "abstract", "methods", "constructors"]

/-- How deep the values inside a contract's list of methods may nest. -/
def methodDepth : Nat := Node.depthLimit - 3

/-- A field by its key. -/
def set (c : Contract.Partial) (key : String) (node : Node) : Read Contract.Partial := do
  match key with
  | "name" => return { c with name := ← once key c.name node.asString }
  | "kind" => return { c with kind := ← once key c.kind (ContractKind.ofNode node) }
  | "visibility" =>
    return { c with visibility := ← once key c.visibility (Visibility.ofNode node) }
  | "final" => return { c with isFinal := ← once key c.isFinal node.asBool }
  | "abstract" => return { c with isAbstract := ← once key c.isAbstract node.asBool }
  | "methods" =>
    return { c with methods := ← once key c.methods (node.asList (Method.ofNode methodDepth)) }
  | "constructors" =>
    return { c with
      constructors := ← once key c.constructors (node.asList (Node.asList JvmType.ofNode)) }
  | _ => do
    node.skip
    return c

/-- One more entry of an object. -/
def add (c : Contract.Partial) (entry : List Piece × Node) : Read Contract.Partial := do
  c.set (← Json.usedText entry.1) entry.2

/-- The contract; the fields with a usual value may be absent. -/
def finish (c : Contract.Partial) : Read Contract := do
  return {
    name := ← required "name" c.name
    kind := ← required "kind" c.kind
    visibility := c.visibility.getD .publicAccess
    isFinal := c.isFinal.getD false
    isAbstract := c.isAbstract.getD false
    methods := c.methods.getD []
    constructors := c.constructors.getD [] }

end Contract.Partial

/-- The message's word for a contract given as an array. -/
def Contract.arrayShape : String := "struct Contract with 7 elements"

/-- A contract. -/
def Contract.ofNode : Node → Read Contract
  | .record entries ending => do
    let c ← entries.foldlM Contract.Partial.add {}
    ending.check
    c.finish
  | .list items ending => do
    let fields := Contract.Partial.keys.zip items
    let c ← fields.foldlM (fun c field => Contract.Partial.set c field.1 field.2) {}
    if items.length < Contract.Partial.keys.length then ending.check
    if items.length < 2 then refuse (.wrongLength items.length Contract.arrayShape)
    if Contract.Partial.keys.length < items.length then stop .misplaced
    match ending with
    | .closed => c.finish
    | .broken afterComma place => stop (if afterComma then .misplaced else place.used)
  | other => other.wrong "struct Contract"

/-- A surface. -/
def Surface.ofNode (n : Node) : Read Surface := do
  return ⟨← n.asList Contract.ofNode⟩

/-- A surface from its text. -/
def Surface.ofJsonText (text : String) : Read Surface :=
  Json.readText Surface.ofNode text

/-- A method from its text. -/
def Method.ofJsonText (text : String) : Read Method :=
  Json.readText (Method.ofNode Node.depthLimit) text

end ProxyForge
