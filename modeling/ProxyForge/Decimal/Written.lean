import ProxyForge.Decimal.Shortest
/-!
# Decimals as text

A decimal is written out in full (`0.001`, `1200`) or with an exponent (`1.2e+21`). Which one, and
whether a whole number keeps a point, is the `Style` of the place that writes.
-/

namespace ProxyForge

namespace Decimal

/-- The decisions of a place that writes decimals. -/
structure Style where
  /-- The widest whole part that is written out, without bound if absent. -/
  wholeDigits : Option Nat
  /-- The most zeros that may follow the point of a fraction, without bound if absent. -/
  leadingZeros : Option Nat
  /-- Is a whole number written with a point and a zero? -/
  keepPoint : Bool
  /-- Has an exponent that is not negative a plus sign? -/
  plusSign : Bool
  /-- Between two equally close decimals. -/
  tie : Tie

/-- A run of zeros. -/
def zeros (n : Nat) : String :=
  String.ofList (List.replicate n '0')

/-- Is the number within a bound that may be absent? -/
def within (n : Nat) : Option Nat → Bool
  | none => true
  | some bound => n ≤ bound

/-- The exponent of ten behind a number. -/
def Style.writeExponent (style : Style) (exponent : Int) : String :=
  "e" ++ (if style.plusSign && 0 ≤ exponent then "+" else "") ++ toString exponent

/-- A positive decimal. -/
def Style.writeDigits (style : Style) (d : Digits) : String :=
  let text := toString d.digits
  -- the point stands after this many digits
  let point : Int := text.length + d.exponent
  if 0 < point ∧ within point.toNat style.wholeDigits then
    if 0 ≤ d.exponent then
      text ++ zeros d.exponent.toNat ++ (if style.keepPoint then ".0" else "")
    else
      String.ofList (text.toList.take point.toNat) ++ "." ++
        String.ofList (text.toList.drop point.toNat)
  else if point ≤ 0 ∧ within (-point).toNat style.leadingZeros then
    "0." ++ zeros (-point).toNat ++ text
  else
    let exponent := style.writeExponent (point - 1)
    match text.toList with
    | [] => exponent
    | [first] => first.toString ++ exponent
    | first :: rest => first.toString ++ "." ++ String.ofList rest ++ exponent

/-- Any binary value. -/
def Style.write (style : Style) : Binary → String
  | .nan => "NaN"
  | .infinity negative => if negative then "-inf" else "inf"
  | .zero negative => (if negative then "-" else "") ++ (if style.keepPoint then "0.0" else "0")
  | .finite negative m =>
    (if negative then "-" else "") ++ style.writeDigits (m.shortest style.tie)

end Decimal

end ProxyForge
