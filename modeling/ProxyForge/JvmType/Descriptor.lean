import ProxyForge.JvmType.Basic
/-!
# Descriptors

The form of a type in a class file: one letter for a primitive or `void`, `L…;` around an internal
name, and `[` before an element. A method descriptor is `(parameters)result`. Writing and reading
work on lists of characters; a reader takes a type from the front and returns the rest.
-/

namespace ProxyForge

/-- Why a text is no type. -/
inductive TypeError
  | empty
  | invalidName (name : String)
  | voidArray
  | invalidDescriptor (descriptor : String)
  deriving DecidableEq, Repr

/-- The message of the error. -/
def TypeError.message : TypeError → String
  | empty => "empty type name"
  | invalidName name => s!"invalid type name '{name}'"
  | voidArray => "'void' cannot be an array element"
  | invalidDescriptor descriptor => s!"invalid descriptor '{descriptor}'"

namespace JvmType

/-! ## Writing -/

/-- The characters of the descriptor. -/
def descriptorChars : JvmType → List Char
  | primitive p => [p.letter]
  | void => ['V']
  | object name => 'L' :: (Name.toInternal name).toList ++ [';']
  | array element => '[' :: element.descriptorChars

/-- The descriptor. -/
def descriptor (t : JvmType) : String :=
  String.ofList t.descriptorChars

/-- The characters of a method descriptor. -/
def methodDescriptorChars (params : List JvmType) (result : JvmType) : List Char :=
  '(' :: params.flatMap descriptorChars ++ ')' :: result.descriptorChars

/-- The descriptor of a method. -/
def methodDescriptor (params : List JvmType) (result : JvmType) : String :=
  String.ofList (methodDescriptorChars params result)

/-- The name in a class constant: the internal name of a class, the descriptor of an array. -/
def internalName : JvmType → Option String
  | object name => some (Name.toInternal name)
  | array element => some (array element).descriptor
  | _ => none

/-- The name by which a class is looked up at run time: dots also inside an array's descriptor. -/
def lookupName : JvmType → Option String
  | object name => some name
  | array element => some (Name.toBinary (array element).descriptor)
  | _ => none

/-! ## Reading -/

/-- The primitive of a letter. -/
def primitiveOfLetter (c : Char) : Option Primitive :=
  Primitive.all.find? fun p => p.letter = c

/-- A type at the front of the text, and the rest. An error quotes the text from the place where
the type that is wrong begins. -/
def takeDescriptor : List Char → Except TypeError (JvmType × List Char)
  | [] => .error (.invalidDescriptor "")
  | c :: rest =>
    if c = 'L' then
      match rest.takeWhile (· ≠ ';'), rest.dropWhile (· ≠ ';') with
      | _ :: _, _ :: after =>
        .ok (.object (Name.toBinary (String.ofList (rest.takeWhile (· ≠ ';')))), after)
      | _, _ => .error (.invalidDescriptor (String.ofList (c :: rest)))
    else if c = '[' then
      match takeDescriptor rest with
      | .error e => .error e
      | .ok (.void, _) => .error .voidArray
      | .ok (element, after) => .ok (.array element, after)
    else if c = 'V' then .ok (.void, rest)
    else match primitiveOfLetter c with
      | some p => .ok (.primitive p, rest)
      | none => .error (.invalidDescriptor (String.ofList (c :: rest)))

/-- A type takes at least one character. -/
theorem length_lt_of_takeDescriptor {text rest : List Char} {t : JvmType}
    (h : takeDescriptor text = .ok (t, rest)) : rest.length < text.length := by
  induction text generalizing t rest with
  | nil => simp [takeDescriptor] at h
  | cons c tail ih =>
    rw [takeDescriptor] at h
    split at h
    · split at h
      · rename_i heq
        have hlen := (List.dropWhile_sublist (l := tail) (· ≠ ';')).length_le
        rw [heq] at hlen
        simp only [Except.ok.injEq, Prod.mk.injEq] at h
        obtain ⟨-, rfl⟩ := h
        simp only [List.length_cons] at hlen ⊢
        omega
      · simp at h
    · split at h
      · split at h
        · simp at h
        · simp at h
        · rename_i heq
          have := ih heq
          simp only [Except.ok.injEq, Prod.mk.injEq] at h
          obtain ⟨-, rfl⟩ := h
          simp only [List.length_cons]
          omega
      · split at h
        · simp only [Except.ok.injEq, Prod.mk.injEq] at h
          obtain ⟨-, rfl⟩ := h
          simp
        · split at h
          · simp only [Except.ok.injEq, Prod.mk.injEq] at h
            obtain ⟨-, rfl⟩ := h
            simp
          · simp at h

/-- A text that is one type. -/
def ofDescriptorChars (text : List Char) : Except TypeError JvmType :=
  match takeDescriptor text with
  | .error e => .error e
  | .ok (t, []) => .ok t
  | .ok (_, _ :: _) => .error (.invalidDescriptor (String.ofList text))

/-- A text that is one type. -/
def ofDescriptor (text : String) : Except TypeError JvmType :=
  ofDescriptorChars text.toList

/-- The parameters up to the closing parenthesis, after those in `acc`, and what follows it.
`whole` is the text that an error quotes. -/
def takeParams (whole : String) (acc : List JvmType) (text : List Char) :
    Except TypeError (List JvmType × List Char) :=
  match text with
  | [] => .error (.invalidDescriptor whole)
  | c :: tail =>
    if c = ')' then .ok (acc.reverse, tail)
    else
      match _h : takeDescriptor (c :: tail) with
      | .error e => .error e
      | .ok (.void, _) => .error (.invalidDescriptor whole)
      | .ok (t, rest) => takeParams whole (t :: acc) rest
  termination_by text.length
  decreasing_by exact length_lt_of_takeDescriptor _h

/-- The parameters and the result of a method descriptor. -/
def ofMethodDescriptor (text : String) : Except TypeError (List JvmType × JvmType) :=
  match text.toList with
  | '(' :: rest => do
    let (params, rest) ← takeParams text [] rest
    let result ← ofDescriptorChars rest
    return (params, result)
  | _ => .error (.invalidDescriptor text)

end JvmType

end ProxyForge
