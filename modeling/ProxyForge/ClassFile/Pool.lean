import ProxyForge.ClassFile.Constant
import ProxyForge.Decimal.Written
import ProxyForge.Text.Quoted
/-!
# Constant pools

A `Pool` is the table that indexes in a class file refer to. Index zero and the index behind a
two-slot entry hold nothing. Looking an entry up names the kind that was expected when another
one is found.
-/

namespace ProxyForge

/-- A constant pool, by index. -/
structure Pool where
  entries : Array (Option Constant)
  deriving DecidableEq, Repr, Inhabited

/-- A resolved reference to a field or a method. -/
structure MemberRef where
  owner : String
  name : String
  descriptor : String
  /-- Does an interface own the member? -/
  inInterface : Bool
  deriving DecidableEq, Repr

namespace Pool

/-- One more entry, and the empty place behind a wide one. -/
def push (entries : Array (Option Constant)) (c : Constant) : Array (Option Constant) :=
  if c.isWide then (entries.push (some c)).push none else entries.push (some c)

/-- What stands where after a push. -/
theorem getElem?_push (entries : Array (Option Constant)) (c : Constant) (i : Nat) :
    (push entries c)[i]? = if i = entries.size then some (some c)
      else if i = entries.size + 1 ∧ c.isWide then some none else entries[i]? := by
  unfold push
  by_cases hwide : c.isWide
  · rw [if_pos hwide, Array.getElem?_push, Array.size_push, Array.getElem?_push]
    by_cases hi : i = entries.size + 1
    · simp [hi, hwide]
    · simp [hi]
  · rw [if_neg hwide, Array.getElem?_push]
    simp [hwide]

theorem size_push (entries : Array (Option Constant)) (c : Constant) :
    (push entries c).size = entries.size + if c.isWide then 2 else 1 := by
  unfold push
  split <;> simp

/-- The index behind an entry, in sixteen bits. -/
def next (index : UInt16) (c : Constant) : UInt16 :=
  index + (if c.isWide then 2 else 1)

/-- Entries up to a count. Each takes a byte at least, so the bytes left bound how many are read
(`fuel`). -/
def decodeFrom (count : UInt16) :
    (fuel : Nat) → (index : UInt16) → Array (Option Constant) → Decoder Pool
  | 0, _, entries => return ⟨entries⟩
  | fuel + 1, index, entries =>
    if index < count then do
      let c ← Constant.decode index
      decodeFrom count fuel (next index c) (push entries c)
    else return ⟨entries⟩

/-- A pool: the count of its indexes, then the entries. -/
def decode : Decoder Pool := do
  let count ← Decoder.u16
  let fuel ← Decoder.remaining
  decodeFrom count (fuel + 1) 1 #[none]

/-- The bytes of the pool. -/
def encode (p : Pool) : Bytes :=
  Bytes.be16 (UInt16.ofNat p.entries.size) ++
    p.entries.toList.flatMap fun entry => match entry with
      | some c => c.encode
      | none => []

/-- One more than the greatest index. -/
def count (p : Pool) : Nat :=
  p.entries.size

/-- The entries with their indexes. -/
def toList (p : Pool) : List (UInt16 × Constant) :=
  p.entries.toList.zipIdx.filterMap fun (entry, i) => entry.map fun c => (UInt16.ofNat i, c)

/-- The entry at an index. -/
def get (p : Pool) (index : UInt16) : Except FormatError Constant :=
  match p.entries[index.toNat]? with
  | some (some c) => .ok c
  | _ => .error (.noConstant index)

/-- The text at an index. -/
def utf8 (p : Pool) (index : UInt16) : Except FormatError String := do
  match ← p.get index with
  | .utf8 text => return text
  | _ => throw (.wrongKind index "Utf8")

/-- The internal name of the class at an index. -/
def className (p : Pool) (index : UInt16) : Except FormatError String := do
  match ← p.get index with
  | .classRef name => p.utf8 name
  | _ => throw (.wrongKind index "Class")

/-- Name and descriptor at an index. -/
def nameAndType (p : Pool) (index : UInt16) : Except FormatError (String × String) := do
  match ← p.get index with
  | .nameAndType name descriptor =>
    let name ← p.utf8 name
    return (name, ← p.utf8 descriptor)
  | _ => throw (.wrongKind index "NameAndType")

/-- A member's owner and its name and descriptor. -/
def resolve (p : Pool) (owner member : UInt16) (inInterface : Bool) :
    Except FormatError MemberRef := do
  let (name, descriptor) ← p.nameAndType member
  return ⟨← p.className owner, name, descriptor, inInterface⟩

/-- The field or method at an index. -/
def memberRef (p : Pool) (index : UInt16) : Except FormatError MemberRef := do
  match ← p.get index with
  | .fieldRef owner member => p.resolve owner member false
  | .methodRef owner member => p.resolve owner member false
  | .interfaceMethodRef owner member => p.resolve owner member true
  | _ => throw (.wrongKind index "member reference")

/-! ## For a reader -/

/-- Numbers are written out in full. -/
def numberStyle : Decimal.Style where
  wholeDigits := none
  leadingZeros := none
  keepPoint := false
  plusSign := false
  tie := .up

/-- The text of a look-up, or a question mark. -/
def orUnknown (text : Except FormatError String) : String :=
  match text with
  | .ok s => s
  | .error _ => "?"

/-- What a listing shows for an index. -/
def describe (p : Pool) (index : UInt16) : String :=
  match p.get index with
  | .error _ => s!"<bad #{index}>"
  | .ok c =>
    match c with
    | .utf8 text => text
    | .integer value => toString value
    | .float bits => numberStyle.write (.ofBits .single bits.toNat) ++ "f"
    | .long value => toString value ++ "l"
    | .double bits => numberStyle.write (.ofBits .double bits.toNat) ++ "d"
    | .classRef _ => orUnknown (p.className index)
    | .string text => Text.quote (orUnknown (p.utf8 text))
    | .fieldRef _ _ | .methodRef _ _ | .interfaceMethodRef _ _ =>
      orUnknown do
        let m ← p.memberRef index
        return m.owner ++ "." ++ m.name ++ ":" ++ m.descriptor
    | .nameAndType _ _ =>
      orUnknown do
        let (name, descriptor) ← p.nameAndType index
        return name ++ ":" ++ descriptor
    | .methodType descriptor => orUnknown (p.utf8 descriptor)
    | other => other.kind

end Pool

end ProxyForge
