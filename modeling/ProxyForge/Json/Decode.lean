import ProxyForge.Json.Document
/-!
# Reading values of known shape

A document is read into a domain type in document order, and the first thing that is wrong is the
error. `ReadError` tells apart text that is no JSON from JSON of the wrong shape (`Mismatch`),
which has a message.
-/

namespace ProxyForge

namespace Json

/-- JSON of the wrong shape. -/
inductive Mismatch
  | wrongType (found expected : String)
  | wrongLength (length : Nat) (expected : String)
  | missingField (name : String)
  | duplicateField (name : String)
  | unknownVariant (name : String) (expected : List String)
  /-- A string that the domain refuses, with the domain's message. -/
  | refused (message : String)
  deriving DecidableEq, Repr

/-- The names that were possible. -/
def alternatives : List String → String
  | [] => "there are no variants"
  | [one] => s!"expected `{one}`"
  | [one, two] => s!"expected `{one}` or `{two}`"
  | names => "expected one of " ++ ", ".intercalate (names.map fun name => s!"`{name}`")

/-- The message of a mismatch. -/
def Mismatch.message : Mismatch → String
  | wrongType found expected => s!"invalid type: {found}, expected {expected}"
  | wrongLength length expected => s!"invalid length {length}, expected {expected}"
  | missingField name => s!"missing field `{name}`"
  | duplicateField name => s!"duplicate field `{name}`"
  | unknownVariant name expected => s!"unknown variant `{name}`, {alternatives expected}"
  | refused message => message

/-- Why a text is not read. -/
inductive ReadError
  | fault (fault : Fault)
  | mismatch (mismatch : Mismatch)
  deriving DecidableEq, Repr

/-- Reading, up to the first error. -/
abbrev Read := Except ReadError

/-- Stop at a fault. -/
def stop {α : Type} (fault : Fault) : Read α :=
  .error (.fault fault)

/-- Stop at a mismatch. -/
def refuse {α : Type} (mismatch : Mismatch) : Read α :=
  .error (.mismatch mismatch)

/-- The text of a string that is used. -/
def usedText (pieces : List Piece) : Read String :=
  match textOf [] pieces with
  | some s => .ok s
  | none => stop .misplaced

/-- Nothing may follow the items that were read. -/
def Ending.check : Ending → Read Unit
  | .closed => .ok ()
  | .broken _ place => stop place.used

namespace Node

/-- What a message calls the value, if it can be read that far. Brackets are not looked into. -/
def found : Node → Read String
  | null => .ok Json.null.describe
  | bool b => .ok (Json.bool b).describe
  | number n =>
    match n.value with
    | some j => .ok j.describe
    | none => stop .misplaced
  | text pieces => do return (Json.str (← usedText pieces)).describe
  | list _ _ => .ok (Json.arr []).describe
  | record _ _ => .ok (Json.obj []).describe
  | broken place => stop place.used

/-- A value of the wrong kind. -/
def wrong {α : Type} (n : Node) (expected : String) : Read α := do
  refuse (.wrongType (← n.found) expected)

/-- A string. -/
def asString : Node → Read String
  | text pieces => usedText pieces
  | other => other.wrong "a string"

/-- A truth value. -/
def asBool : Node → Read Bool
  | bool b => .ok b
  | other => other.wrong "a boolean"

/-- The items of a list, each read by `item`. -/
def asList {α : Type} (item : Node → Read α) : Node → Read (List α)
  | list items ending => do
    let values ← items.mapM item
    ending.check
    return values
  | other => other.wrong "a sequence"

/-- A value that may be `null`. -/
def asOption {α : Type} (value : Node → Read α) : Node → Read (Option α)
  | null => .ok none
  | other => some <$> value other

/-- The value of a name. -/
def variant {α : Type} (table : List (String × α)) (name : String) : Read α :=
  match table.lookup name with
  | some value => .ok value
  | none => refuse (.unknownVariant name (table.map (·.1)))

/-- One of a few names, either as a string or as the only key of an object whose value is
`null`. -/
def asVariant {α : Type} (table : List (String × α)) : Node → Read α
  | text pieces => do variant table (← usedText pieces)
  | record [] .closed => stop .misplaced
  | record [] (.broken _ place) => stop place.used
  | record ((key, value) :: more) ending => do
    let chosen ← variant table (← usedText key)
    match value with
    | null => pure ()
    | other => other.wrong "unit"
    match more, ending with
    | _ :: _, _ => stop .misplaced
    | [], .closed => return chosen
    | [], .broken afterComma place => stop (if afterComma then .misplaced else place.used)
  | broken place => stop place.chosen
  | _ => stop .misplaced

mutual
/-- Skip a value: only its syntax matters. -/
def skip : Node → Read Unit
  | list items ending => do
    skipItems items
    skipEnding ending
  | record entries ending => do
    skipEntries entries
    skipEnding ending
  | broken place => stop place.skipped
  | _ => .ok ()

/-- Skip each item. -/
def skipItems : List Node → Read Unit
  | [] => .ok ()
  | item :: rest => do
    skip item
    skipItems rest

/-- Skip each entry. -/
def skipEntries : List (List Piece × Node) → Read Unit
  | [] => .ok ()
  | (_, value) :: rest => do
    skip value
    skipEntries rest

/-- The end of a list that is skipped. -/
def skipEnding : Ending → Read Unit
  | .closed => .ok ()
  | .broken _ place => stop place.skipped
end

mutual
/-- Any value whatever, nested less than `depth` deep. -/
def asValue (depth : Nat) : Node → Read Json
  | null => .ok .null
  | bool b => .ok (.bool b)
  | number n =>
    match n.value with
    | some j => .ok j
    | none => stop .misplaced
  | text pieces => do return .str (← usedText pieces)
  | list items ending => do
    if depth ≤ 1 then stop .misplaced
    let values ← asValues (depth - 1) items
    ending.check
    return .arr values
  | record entries ending => do
    if depth ≤ 1 then stop .misplaced
    let values ← asEntries (depth - 1) entries
    ending.check
    return .obj values
  | broken place => stop place.used

/-- Each item, whatever it is. -/
def asValues (depth : Nat) : List Node → Read (List Json)
  | [] => .ok []
  | item :: rest => do
    let value ← asValue depth item
    return value :: (← asValues depth rest)

/-- Each entry, whatever it is. -/
def asEntries (depth : Nat) : List (List Piece × Node) → Read (List (String × Json))
  | [] => .ok []
  | (key, value) :: rest => do
    let key ← usedText key
    let value ← asValue depth value
    return (key, value) :: (← asEntries depth rest)
end

/-- How deep values may be nested. -/
def depthLimit : Nat := 128

end Node

/-! ## Values already read -/

/-- A value of the wrong kind. -/
def wrong {α : Type} (j : Json) (expected : String) : Read α :=
  refuse (.wrongType j.describe expected)

/-- A string. -/
def asString : Json → Read String
  | str s => .ok s
  | other => other.wrong "a string"

/-- The items of a list, each read by `item`. -/
def asList {α : Type} (item : Json → Read α) : Json → Read (List α)
  | arr items => items.mapM item
  | other => other.wrong "a sequence"

/-- A field that may stand once: `seen` is what was read for it. -/
def once {α : Type} (name : String) (seen : Option α) (value : Read α) : Read (Option α) :=
  match seen with
  | some _ => refuse (.duplicateField name)
  | none => some <$> value

/-- A field that must stand. -/
def required {α : Type} (name : String) (seen : Option α) : Read α :=
  match seen with
  | some value => .ok value
  | none => refuse (.missingField name)

/-- Read a text with `root`; nothing but space may follow. -/
def readText {α : Type} (root : Node → Read α) (text : String) : Read α := do
  let document := Document.read text
  let value ← root document.root
  if document.trailing then stop .misplaced
  return value

end Json

end ProxyForge
