import ProxyForge.JvmType.Descriptor
import ProxyForge.Text.Blank
/-!
# Types as written in source

`int`, `java.lang.String`, `long[][]`: a keyword, `void` or a binary name, with a pair of brackets
for each array level. Blanks may stand around the name and around the part before brackets.
-/

namespace ProxyForge

namespace JvmType

/-- The source form. -/
def sourceName : JvmType → String
  | primitive p => p.keyword
  | void => "void"
  | object name => name
  | array element => element.sourceName ++ "[]"

instance : ToString JvmType := ⟨sourceName⟩

/-- The type of a name without brackets. -/
def ofPlainName (name : String) : Except TypeError JvmType :=
  match Primitive.all.find? fun p => p.keyword = name with
  | some p => .ok (.primitive p)
  | none =>
    if name = "void" then .ok .void
    else if Name.isBinary name then .ok (.object name)
    else .error (.invalidName name)

/-- Trimming does not lengthen. -/
theorem length_trimStart_le (text : List Char) :
    (Text.trimStart text).length ≤ text.length :=
  (List.dropWhile_sublist _).length_le

/-- The type of a text given back to front, without blanks at its start. Brackets are taken off
its end one pair at a time. -/
def ofReversed (text : List Char) : Except TypeError JvmType :=
  match _h : Text.trimStart text with
  | [] => .error .empty
  | ']' :: '[' :: rest =>
    match ofReversed rest with
    | .error e => .error e
    | .ok .void => .error .voidArray
    | .ok element => .ok (.array element)
  | trimmed => ofPlainName (String.ofList trimmed.reverse)
  termination_by text.length
  decreasing_by
    have := length_trimStart_le text
    rw [_h] at this
    simp only [List.length_cons] at this
    omega

/-- The type that a source text names. -/
def ofSourceName (text : String) : Except TypeError JvmType :=
  ofReversed (Text.trimStart text.toList).reverse

end JvmType

end ProxyForge
