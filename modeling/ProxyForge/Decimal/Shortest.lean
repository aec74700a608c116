import ProxyForge.Decimal.Binary
/-!
# The shortest decimal that reads back

Every binary value is the nearest one to an interval of reals. `Magnitude.shortest` picks the
decimal with the fewest digits in that interval and, among those, the one closest to the value.
All arithmetic is exact: the value is held four times as large, so that both ends of the interval
are integers too.
-/

namespace ProxyForge

namespace Decimal

/-- Which of two equally close decimals is taken. -/
inductive Tie
  | up
  | toEven
  deriving DecidableEq, Repr

/-- The number `digits · 10 ^ exponent`. -/
structure Digits where
  digits : Nat
  exponent : Int
  deriving DecidableEq, Repr

/-- The number of decimal digits of `n`, one for zero. -/
def digitCount (n : Nat) : Nat :=
  (Nat.toDigits 10 n).length

/-- Trailing zeros move into the exponent; `fuel` bounds how many. -/
def Digits.strip : (fuel : Nat) → Digits → Digits
  | 0, d => d
  | fuel + 1, d =>
    if d.digits ≠ 0 ∧ d.digits % 10 = 0 then Digits.strip fuel ⟨d.digits / 10, d.exponent + 1⟩
    else d

/-- A value and the ends of its interval over one denominator. -/
structure Interval where
  low : Nat
  value : Nat
  high : Nat
  denominator : Nat
  /-- Do the ends themselves read back? -/
  closed : Bool

/-- The interval of reals that read back as the value. Its ends lie half-way to the neighbours and
belong to it exactly if the mantissa is even. -/
def Magnitude.interval (m : Magnitude) : Interval :=
  let scale := Nat.pow 2 m.exponent.toNat
  let four := 4 * m.mantissa
  { low := (if m.narrowBelow then four - 1 else four - 2) * scale
    value := four * scale
    high := (four + 2) * scale
    denominator := 4 * Nat.pow 2 (-m.exponent).toNat
    closed := m.mantissa % 2 == 0 }

/-- The exponent of the leading decimal digit of `value / denominator`. -/
def Interval.leading (i : Interval) : Int :=
  if i.denominator ≤ i.value then (digitCount (i.value / i.denominator) : Int) - 1
  else -(digitCount ((i.denominator + i.value - 1) / i.value - 1) : Int)

/-- Does the numerator lie in the interval, over the interval's denominator times `factor`? -/
def Interval.holds (i : Interval) (factor numerator : Nat) : Bool :=
  if i.closed then i.low * factor ≤ numerator && numerator ≤ i.high * factor
  else i.low * factor < numerator && numerator < i.high * factor

/-- The closer neighbour of the value on the grid of multiples of `10 ^ k`, if one reads back. -/
def Interval.onGrid (i : Interval) (tie : Tie) (k : Int) : Option Digits :=
  let factor := Nat.pow 10 (-k).toNat
  let unit := Nat.pow 10 k.toNat * i.denominator
  let below := i.value * factor / unit
  let above := below + 1
  let value := i.value * factor
  match i.holds factor (below * unit), i.holds factor (above * unit) with
  | true, false => some ⟨below, k⟩
  | false, true => some ⟨above, k⟩
  | false, false => none
  | true, true =>
    let down := value - below * unit
    let up := above * unit - value
    if down < up then some ⟨below, k⟩
    else if up < down then some ⟨above, k⟩
    else match tie with
      | .up => some ⟨above, k⟩
      | .toEven => some ⟨if below % 2 = 0 then below else above, k⟩

/-- The shortest decimal that reads back. Seventeen digits always suffice for sixty-four bits; the
last resort is the value itself to seventeen digits. -/
def Magnitude.shortest (m : Magnitude) (tie : Tie) : Digits :=
  let i := m.interval
  let top := i.leading
  match (List.range 17).findSome? fun (n : Nat) => i.onGrid tie (top - (n : Int)) with
  | some d => d.strip 400
  | none =>
    let scale := i.denominator * Nat.pow 10 (top - 16).toNat
    ⟨i.value * Nat.pow 10 (16 - top).toNat / scale, top - 16⟩

end Decimal

end ProxyForge
