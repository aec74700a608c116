import ProxyForge.Bytes.Basic
/-!
# Bytes as hexadecimal text

Two small digits for each byte. Reading takes capitals too and stops at a digit that stands alone.
-/

namespace ProxyForge

namespace Bytes

/-- The two digits of a byte. -/
def hexDigits (byte : UInt8) : List Char :=
  [Nat.digitChar (byte.toNat / 16), Nat.digitChar (byte.toNat % 16)]

/-- The digits of bytes, as text. -/
def toHex (bytes : Bytes) : String :=
  String.ofList (bytes.foldr (fun byte text => hexDigits byte ++ text) [])

/-- The value of a digit. -/
def hexValue (c : Char) : Nat :=
  if c.isDigit then c.toNat - 48 else if 'a' ≤ c then c.toNat - 87 else c.toNat - 55

/-- Bytes from their digits, behind other bytes that are given last first. -/
def ofHexDigits (reversed : Bytes) : List Char → Bytes
  | high :: low :: rest =>
    ofHexDigits (UInt8.ofNat (hexValue high * 16 + hexValue low) :: reversed) rest
  | _ => reversed.reverse

/-- The bytes of a text. -/
def ofHex (text : String) : Bytes :=
  ofHexDigits [] text.toList

/-- The number that bytes stand for, the most significant byte first. -/
def toNat (bytes : Bytes) : Nat :=
  bytes.foldl (fun n byte => n * 256 + byte.toNat) 0

end Bytes

end ProxyForge
