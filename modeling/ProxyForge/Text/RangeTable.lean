/-!
# Tables of character ranges

A property of characters above ASCII is data: closed ranges of code points in ascending order.
`RangeTable.contains` looks a character up by bisection.
-/

namespace ProxyForge

namespace Text

/-- Closed ranges of code points, ascending and apart from each other. -/
structure RangeTable where
  ranges : Array (Nat × Nat)

namespace RangeTable

/-- Bisection on the indexes `lo ≤ i < hi`: is `code` in one of these ranges? Each round halves
the gap, so `fuel` bits of it are enough. -/
def search (t : RangeTable) (code : Nat) : (fuel lo hi : Nat) → Bool
  | 0, _, _ => false
  | fuel + 1, lo, hi =>
    if lo < hi then
      let mid := (lo + hi) / 2
      match t.ranges[mid]? with
      | none => false
      | some (first, last) =>
        if code < first then t.search code fuel lo mid
        else if last < code then t.search code fuel (mid + 1) hi
        else true
    else false

/-- Does the table hold the character? -/
def contains (t : RangeTable) (c : Char) : Bool :=
  t.search c.toNat (t.ranges.size.log2 + 1) 0 t.ranges.size

end RangeTable

end Text

end ProxyForge
