import Std.Data.HashMap
import ProxyForge.ClassFile.Pool
import ProxyForge.Code.Error
/-!
# Building a constant pool

A `PoolBuilder` is a pool that grows: a constant that is not in it yet gets the next index, one
that is in it keeps its index. `Interner` is a computation that may ask for indexes. A constant
that was added stays, also when the computation fails later.
-/

namespace ProxyForge

/-- The greatest number of indexes. -/
def PoolBuilder.limit : Nat := 65535

/-- A pool, and the index of each of its constants. -/
structure PoolBuilder where
  pool : Pool
  index : Std.HashMap Constant UInt16
  /-- A constant has the index at which it stands. -/
  index_iff : ∀ (c : Constant) (i : UInt16),
    index[c]? = some i ↔ pool.entries[i.toNat]? = some (some c)
  size_le : pool.entries.size ≤ PoolBuilder.limit

namespace PoolBuilder

/-- Nothing but the unused index zero. -/
def empty : PoolBuilder where
  pool := ⟨#[none]⟩
  index := ∅
  index_iff c i := by
    cases i.toNat <;> simp
  size_le := by decide

instance : Inhabited PoolBuilder := ⟨empty⟩

/-- The number of indexes, the unused zero included. -/
def count (b : PoolBuilder) : Nat :=
  b.pool.count

/-- The number of constants. -/
def size (b : PoolBuilder) : Nat :=
  b.index.size

/-- The pool with a new constant behind the others. -/
def push (b : PoolBuilder) (c : Constant) (hnew : b.index[c]? = none)
    (hfits : b.count + c.width ≤ limit) : PoolBuilder where
  pool := ⟨Pool.push b.pool.entries c⟩
  index := b.index.insert c (UInt16.ofNat b.count)
  index_iff c' i := by
    have hsize := b.size_le
    have hnext : (UInt16.ofNat b.count).toNat = b.pool.entries.size := by
      rw [UInt16.toNat_ofNat']
      exact Nat.mod_eq_of_lt (Nat.lt_succ_of_le hsize)
    rw [Std.HashMap.getElem?_insert, Pool.getElem?_push]
    by_cases hi : i.toNat = b.pool.entries.size
    · have hnone : b.index[c']? ≠ some i := by
        rw [Ne, b.index_iff, Array.getElem?_eq_none (Nat.le_of_eq hi.symm)]
        exact nofun
      have heq : UInt16.ofNat b.count = i := UInt16.toNat.inj (hnext.trans hi.symm)
      by_cases hc : c = c'
      · simp [hc, hi, heq]
      · simp [hc, hi, hnone]
    · have hne : UInt16.ofNat b.count ≠ i := fun h => hi (h ▸ hnext)
      by_cases hc : c = c'
      · subst hc
        have hnone : b.pool.entries[i.toNat]? ≠ some (some c) := by
          rw [Ne, ← b.index_iff, hnew]
          exact nofun
        simp only [beq_self_eq_true, if_true, Option.some.injEq, hne, hi, if_false, false_iff]
        split
        · exact nofun
        · exact hnone
      · have hlt : i.toNat = b.pool.entries.size + 1 → b.index[c']? ≠ some i := fun h => by
          rw [Ne, b.index_iff, Array.getElem?_eq_none (by omega)]
          exact nofun
        simp only [beq_iff_eq, hc, if_false, hi]
        split
        · rename_i h
          simp [hlt h.1]
        · exact b.index_iff c' i
  size_le := by
    rw [Pool.size_push]
    exact hfits

end PoolBuilder

/-- A computation that adds constants to a pool. -/
abbrev Interner := EStateM EmissionError PoolBuilder

namespace Interner

/-- The index of a constant, which is added if it is new and fits. -/
def constant (c : Constant) : Interner UInt16 := fun b =>
  match hnew : b.index[c]? with
  | some index => .ok index b
  | none =>
    let next := b.count + c.width
    if hfits : next ≤ PoolBuilder.limit then .ok (UInt16.ofNat b.count) (b.push c hnew hfits)
    else .error (.tooManyConstants next) b

/-- The index of a text. -/
def utf8 (text : String) : Interner UInt16 :=
  constant (.utf8 text)

/-- The index of an integer. -/
def integer (value : Int32) : Interner UInt16 :=
  constant (.integer value)

/-- The index of a class, by internal name or by the descriptor of an array. -/
def classRef (name : String) : Interner UInt16 := do
  constant (.classRef (← utf8 name))

/-- The index of a string. -/
def string (text : String) : Interner UInt16 := do
  constant (.string (← utf8 text))

/-- The index of a name with a descriptor. -/
def nameAndType (name descriptor : String) : Interner UInt16 := do
  let name ← utf8 name
  let descriptor ← utf8 descriptor
  constant (.nameAndType name descriptor)

/-- The index of a field. -/
def fieldRef (owner name descriptor : String) : Interner UInt16 := do
  let owner ← classRef owner
  let member ← nameAndType name descriptor
  constant (.fieldRef owner member)

/-- The index of a method. -/
def methodRef (owner name descriptor : String) (inInterface : Bool) : Interner UInt16 := do
  let owner ← classRef owner
  let member ← nameAndType name descriptor
  constant (if inInterface then .interfaceMethodRef owner member else .methodRef owner member)

/-- Stop with an error. -/
def fail {α : Type} (e : EmissionError) : Interner α :=
  throw e

/-- A result that needs no constants. -/
def lift {α : Type} : Except EmissionError α → Interner α
  | .ok x => return x
  | .error e => fail e

/-- A number of things as sixteen bits. -/
def count16 (what : Counted) (count : Nat) : Interner UInt16 :=
  if count ≤ 65535 then return UInt16.ofNat count else fail (.tooMany what count)

end Interner

end ProxyForge
