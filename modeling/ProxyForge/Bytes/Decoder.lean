import ProxyForge.Bytes.Basic
import ProxyForge.ClassFile.Error
/-!
# Reading bytes

A `Decoder` takes values from the front of a list of bytes and counts the offset. A number that
does not fit into the bytes left is an error which names the offset and the bytes missing, and
nothing is taken for it; what was read before it stays read.
-/

namespace ProxyForge

/-- A place in a sequence of bytes. -/
structure Cursor where
  /-- The bytes before it. -/
  offset : Nat
  /-- The bytes from it on. -/
  rest : Bytes
  deriving DecidableEq, Repr

/-- The start of bytes. -/
def Cursor.start (bytes : Bytes) : Cursor := ⟨0, bytes⟩

/-- A reader at a cursor. -/
abbrev Decoder := EStateM FormatError Cursor

namespace Decoder

/-- Stop with an error. -/
def fail {α : Type} (e : FormatError) : Decoder α :=
  throw e

/-- Where the cursor is. -/
def offset : Decoder Nat := fun c => .ok c.offset c

/-- The bytes left. -/
def remaining : Decoder Nat := fun c => .ok c.rest.length c

/-- No bytes left? -/
def atEnd : Decoder Bool := fun c => .ok c.rest.isEmpty c

/-- The error of a read at a cursor that lacks bytes. -/
def truncated {α : Type} (needed : Nat) : Decoder α := fun c =>
  .error (.truncated c.offset needed) c

/-- The next `n` bytes. -/
def take (n : Nat) : Decoder Bytes := fun c =>
  let front := c.rest.take n
  if front.length < n then truncated (n - front.length) c
  else .ok front ⟨c.offset + n, c.rest.drop n⟩

/-- Pass over `n` bytes. -/
def skip (n : Nat) : Decoder Unit := do
  let _ ← take n

/-- One byte. -/
def u8 : Decoder UInt8 := fun c =>
  match c.rest with
  | [] => truncated 1 c
  | a :: rest => .ok a ⟨c.offset + 1, rest⟩

/-- A number of two bytes. -/
def u16 : Decoder UInt16 := fun c =>
  match c.rest with
  | [] => truncated 2 c
  | [_] => truncated 1 c
  | a :: b :: rest => .ok (Bytes.ofBe16 a b) ⟨c.offset + 2, rest⟩

/-- A number of four bytes. -/
def u32 : Decoder UInt32 := fun c =>
  match c.rest with
  | [] => truncated 4 c
  | [_] => truncated 3 c
  | [_, _] => truncated 2 c
  | [_, _, _] => truncated 1 c
  | a :: b :: c' :: d :: rest => .ok (Bytes.ofBe32 a b c' d) ⟨c.offset + 4, rest⟩

/-- A number of eight bytes, read as two halves. -/
def u64 : Decoder UInt64 := do
  let high ← u32
  let low ← u32
  return Bytes.ofBe64 high low

/-- One byte with a sign. -/
def i8 : Decoder Int8 := do return (← u8).toInt8

/-- Two bytes with a sign. -/
def i16 : Decoder Int16 := do return (← u16).toInt16

/-- Four bytes with a sign. -/
def i32 : Decoder Int32 := do return (← u32).toInt32

/-- Values read one after the other, behind those in `acc`. -/
def timesOnto {α : Type} (d : Decoder α) (acc : List α) : Nat → Decoder (List α)
  | 0 => return acc.reverse
  | n + 1 => do
    let x ← d
    timesOnto d (x :: acc) n

/-- `n` values read one after the other. -/
def times {α : Type} (n : Nat) (d : Decoder α) : Decoder (List α) :=
  timesOnto d [] n

/-- As many values as a number of two bytes in front of them says. -/
def counted {α : Type} (d : Decoder α) : Decoder (List α) := do
  let n ← u16
  times n.toNat d

/-- What a decoder gives at the start of bytes. -/
def run {α : Type} (d : Decoder α) (bytes : Bytes) : Except FormatError α :=
  match d (.start bytes) with
  | .ok x _ => .ok x
  | .error e _ => .error e

/-- A decoder for bytes that must be used up; what is left is the error `leftOver`. -/
def whole {α : Type} (d : Decoder α) (leftOver : Nat → FormatError) : Decoder α := do
  let x ← d
  let n ← remaining
  if n = 0 then return x else fail (leftOver n)

/-- The result of a look-up as part of a decoder. -/
def lift {α : Type} : Except FormatError α → Decoder α
  | .ok x => return x
  | .error e => fail e

end Decoder

end ProxyForge
