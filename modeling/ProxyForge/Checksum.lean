/-!
# Cyclic redundancy check

CRC-32 with the reflected polynomial `EDB88320`, over bytes. One byte is absorbed by eight shifts
of the remainder; `Checksum.table` holds the result of that for each byte value.
-/

namespace ProxyForge

namespace Checksum

/-- One bit of a division by the polynomial. -/
def shiftBit (r : UInt32) : UInt32 :=
  if r &&& 1 = 1 then (r >>> 1) ^^^ 0xedb88320 else r >>> 1

/-- Eight bits of it. -/
def shiftByte (r : UInt32) : UInt32 :=
  (List.range 8).foldl (fun r _ => shiftBit r) r

/-- `shiftByte` of every byte value. -/
def table : Array UInt32 :=
  ((List.range 256).map fun n => shiftByte (UInt32.ofNat n)).toArray

/-- The remainder after one more byte. -/
def absorb (r : UInt32) (b : UInt8) : UInt32 :=
  let index := ((r ^^^ b.toUInt32) &&& 0xff).toNat
  table.getD index 0 ^^^ (r >>> 8)

/-- The checksum of bytes. -/
def crc32 (bytes : List UInt8) : UInt32 :=
  bytes.foldl absorb 0xffffffff ^^^ 0xffffffff

end Checksum

end ProxyForge
