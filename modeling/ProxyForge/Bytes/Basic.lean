/-!
# Bytes

Bytes are a list. Numbers are written with their most significant byte first.
-/

namespace ProxyForge

/-- A sequence of bytes. -/
abbrev Bytes := List UInt8

namespace Bytes

/-- Two bytes of a number. -/
def be16 (n : UInt16) : Bytes :=
  [(n >>> 8).toUInt8, n.toUInt8]

/-- Four bytes of a number. -/
def be32 (n : UInt32) : Bytes :=
  [(n >>> 24).toUInt8, (n >>> 16).toUInt8, (n >>> 8).toUInt8, n.toUInt8]

/-- Eight bytes of a number, as two halves. -/
def be64 (n : UInt64) : Bytes :=
  be32 (n >>> 32).toUInt32 ++ be32 n.toUInt32

/-- The number of two bytes. -/
def ofBe16 (a b : UInt8) : UInt16 :=
  (a.toUInt16 <<< 8) ||| b.toUInt16

/-- The number of four bytes. -/
def ofBe32 (a b c d : UInt8) : UInt32 :=
  (a.toUInt32 <<< 24) ||| (b.toUInt32 <<< 16) ||| (c.toUInt32 <<< 8) ||| d.toUInt32

/-- The number of two halves. -/
def ofBe64 (high low : UInt32) : UInt64 :=
  (high.toUInt64 <<< 32) ||| low.toUInt64

/-- Bytes with other bytes in place of those from `offset` on. -/
def patch (offset : Nat) (new old : Bytes) : Bytes :=
  old.take offset ++ new ++ old.drop (offset + new.length)

/-- The length as a number of sixteen bits; what does not fit is dropped. -/
def length16 {α : Type} (xs : List α) : UInt16 :=
  UInt16.ofNat xs.length

/-- The length as a number of thirty-two bits; what does not fit is dropped. -/
def length32 {α : Type} (xs : List α) : UInt32 :=
  UInt32.ofNat xs.length

end Bytes

end ProxyForge
