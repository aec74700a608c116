import ProxyForge.Json.Basic
/-!
# Numerals

The digits of a number as they stand in a text, and the value they are read as. A whole number of
at most sixty-four bits is read exactly. Any other number becomes a double: the leading digits
that fit into sixty-four bits, scaled by one power of ten.
-/

namespace ProxyForge

namespace Json

/-- The parts of a number in a text; digits are values below ten. -/
structure Numeral where
  negative : Bool
  whole : List Nat
  fraction : List Nat
  /-- Sign (`true` for a negative one) and digits of the exponent. -/
  exponent : Option (Bool × List Nat)
  /-- Has the number a point? -/
  pointed : Bool
  deriving DecidableEq, Repr

namespace Numeral

/-- The largest significand. -/
def significandBound : Nat := 18446744073709551616

/-- Digits join the significand while it stays below the bound; the rest is returned. -/
def significand (acc : Nat) : List Nat → Nat × List Nat
  | [] => (acc, [])
  | d :: rest =>
    if acc * 10 + d < significandBound then significand (acc * 10 + d) rest else (acc, d :: rest)

/-- `f · 10 ^ exponent`, or nothing if that is too large. `fuel` bounds how often a tiny number is
divided by the greatest power. -/
def scale : (fuel : Nat) → (f : Float) → (exponent : Int) → Option Float
  | 0, f, _ => some f
  | fuel + 1, f, exponent =>
    if exponent.natAbs ≤ 308 then
      let power := Float.ofScientific 1 false exponent.natAbs
      if 0 ≤ exponent then
        let scaled := f * power
        if scaled.isInf then none else some scaled
      else some (f / power)
    else if f == 0.0 then some f
    else if 0 ≤ exponent then none
    else scale fuel (f / Float.ofScientific 1 false 308) (exponent + 308)

/-- A double with a sign. -/
def signed (negative : Bool) (f : Float) : Json :=
  .float (if negative then -f else f).toBits

/-- The greatest exponent that is looked at. -/
def exponentBound : Nat := 2147483648

/-- The value of a numeral, or nothing if it is out of range. -/
def value (n : Numeral) : Option Json :=
  let (whole, beyond) := significand 0 n.whole
  let (digits, dropped) := significand whole n.fraction
  let point : Int := beyond.length - ((n.fraction.length : Int) - dropped.length)
  let finish (exponent : Int) : Option Json :=
    (scale 8 (Float.ofNat digits) exponent).map (signed n.negative)
  match n.exponent with
  | some (down, exponentDigits) =>
    let exponent := exponentDigits.foldl (fun acc d => acc * 10 + d) 0
    if exponent < exponentBound then finish (point + (if down then -(exponent : Int) else exponent))
    else if digits ≠ 0 ∧ !down then none
    else some (signed n.negative 0.0)
  | none =>
    if n.pointed || !beyond.isEmpty then finish point
    else if !n.negative then some (.int whole)
    else if whole = 0 ∨ 9223372036854775808 < whole then some (signed true (Float.ofNat whole))
    else some (.int (-(whole : Int)))

end Numeral

end Json

end ProxyForge
