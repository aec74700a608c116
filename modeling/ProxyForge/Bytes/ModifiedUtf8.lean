import ProxyForge.Bytes.Basic
/-!
# Modified UTF-8

The text form of class files: the UTF-16 code units of a text, each in one, two or three bytes.
A zero unit takes two bytes, so no byte of an encoded text is zero; a character above `FFFF` is a
pair of surrogates of three bytes each. The decoder accepts units in more bytes than they need.
-/

namespace ProxyForge

namespace ModifiedUtf8

/-! ## Code units -/

/-- The code units of a character. -/
def unitsOfChar (c : Char) : List UInt16 :=
  let n := c.toNat
  if n < 0x10000 then [UInt16.ofNat n]
  else
    let n := n - 0x10000
    [UInt16.ofNat (0xd800 + n / 0x400), UInt16.ofNat (0xdc00 + n % 0x400)]

/-- The code units of a text. -/
def units (s : List Char) : List UInt16 :=
  s.flatMap unitsOfChar

/-- The first half of a pair? -/
def isHighSurrogate (u : UInt16) : Bool :=
  0xd800 ≤ u && u ≤ 0xdbff

/-- The second half of a pair? -/
def isLowSurrogate (u : UInt16) : Bool :=
  0xdc00 ≤ u && u ≤ 0xdfff

/-- The character of a pair. -/
def charOfPair (high low : UInt16) : Char :=
  Char.ofNat (0x10000 + (high.toNat - 0xd800) * 0x400 + (low.toNat - 0xdc00))

/-- The text of code units behind the characters of `acc`, unless a surrogate is unpaired. -/
def charsOnto (acc : List Char) : List UInt16 → Option (List Char)
  | [] => some acc.reverse
  | u :: rest =>
    if isHighSurrogate u then
      match rest with
      | low :: rest =>
        if isLowSurrogate low then charsOnto (charOfPair u low :: acc) rest else none
      | [] => none
    else if isLowSurrogate u then none
    else charsOnto (Char.ofNat u.toNat :: acc) rest

/-- The text of code units. -/
def chars (us : List UInt16) : Option (List Char) :=
  charsOnto [] us

/-! ## Bytes -/

/-- The bytes of a code unit, as few as may be. -/
def encodeUnit (u : UInt16) : Bytes :=
  if 0x0001 ≤ u && u ≤ 0x007f then [u.toUInt8]
  else if u ≤ 0x07ff then
    [(0xc0 : UInt8) ||| ((u >>> 6) &&& 0x1f).toUInt8, (0x80 : UInt8) ||| (u &&& 0x3f).toUInt8]
  else
    [(0xe0 : UInt8) ||| ((u >>> 12) &&& 0x0f).toUInt8,
      (0x80 : UInt8) ||| ((u >>> 6) &&& 0x3f).toUInt8, (0x80 : UInt8) ||| (u &&& 0x3f).toUInt8]

/-- A byte behind the first of its unit? -/
def isContinuation (b : UInt8) : Bool :=
  b &&& 0xc0 = 0x80

/-- The six bits of such a byte. -/
def continuationBits (b : UInt8) : UInt16 :=
  (b &&& 0x3f).toUInt16

/-- The code units of bytes, behind those in `acc`. -/
def decodeUnitsOnto (acc : List UInt16) : Bytes → Option (List UInt16)
  | [] => some acc.reverse
  | b :: rest =>
    if b &&& 0x80 = 0 && b ≠ 0 then decodeUnitsOnto (b.toUInt16 :: acc) rest
    else if b &&& 0xe0 = 0xc0 then
      match rest with
      | b₁ :: rest =>
        if isContinuation b₁ then
          decodeUnitsOnto (((b &&& 0x1f).toUInt16 <<< 6 ||| continuationBits b₁) :: acc) rest
        else none
      | _ => none
    else if b &&& 0xf0 = 0xe0 then
      match rest with
      | b₁ :: b₂ :: rest =>
        if isContinuation b₁ && isContinuation b₂ then
          decodeUnitsOnto (((b &&& 0x0f).toUInt16 <<< 12 ||| continuationBits b₁ <<< 6 |||
            continuationBits b₂) :: acc) rest
        else none
      | _ => none
    else none

/-- The code units of bytes. -/
def decodeUnits (bytes : Bytes) : Option (List UInt16) :=
  decodeUnitsOnto [] bytes

/-! ## Text -/

/-- The bytes of a text. -/
def encode (s : String) : Bytes :=
  (units s.toList).flatMap encodeUnit

/-- The text of bytes, if they are one. -/
def decode (bytes : Bytes) : Option String := do
  let us ← decodeUnits bytes
  let text ← chars us
  return String.ofList text

end ModifiedUtf8

end ProxyForge
