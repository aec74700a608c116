/-!
# Binary floating-point values

A pattern of bits in a binary interchange format is a NaN, an infinity, a zero or
`± mantissa · 2 ^ exponent`. `Binary.ofBits` reads a pattern in a given format; the two formats
in use are `single` and `double`.
-/

namespace ProxyForge

namespace Decimal

/-- How many bits the fraction and the exponent take. -/
structure BinaryFormat where
  fractionBits : Nat
  exponentBits : Nat

/-- Thirty-two bits. -/
def BinaryFormat.single : BinaryFormat := ⟨23, 8⟩

/-- Sixty-four bits. -/
def BinaryFormat.double : BinaryFormat := ⟨52, 11⟩

/-- A positive value `mantissa · 2 ^ exponent`. At a power of two the neighbour below is half as
far away as the one above (`narrowBelow`), unless it is the least normal value. -/
structure Magnitude where
  mantissa : Nat
  exponent : Int
  narrowBelow : Bool
  deriving DecidableEq, Repr

/-- What a pattern of bits stands for. -/
inductive Binary
  | nan
  | infinity (negative : Bool)
  | zero (negative : Bool)
  | finite (negative : Bool) (magnitude : Magnitude)
  deriving DecidableEq, Repr

/-- The value of a pattern of bits. -/
def Binary.ofBits (format : BinaryFormat) (bits : Nat) : Binary :=
  let fraction := bits % Nat.pow 2 format.fractionBits
  let biased := bits / Nat.pow 2 format.fractionBits % Nat.pow 2 format.exponentBits
  let negative := bits / Nat.pow 2 (format.fractionBits + format.exponentBits) % 2 == 1
  let bias : Int := Int.ofNat (Nat.pow 2 (format.exponentBits - 1)) - 1 + format.fractionBits
  if biased == Nat.pow 2 format.exponentBits - 1 then
    if fraction == 0 then .infinity negative else .nan
  else if biased == 0 then
    if fraction == 0 then .zero negative else .finite negative ⟨fraction, 1 - bias, false⟩
  else
    .finite negative
      ⟨Nat.pow 2 format.fractionBits + fraction, biased - bias, fraction == 0 && biased != 1⟩

end Decimal

end ProxyForge
