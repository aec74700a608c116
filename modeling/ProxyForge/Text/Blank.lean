/-!
# Blanks

The characters of the Unicode property *White_Space*, and trimming by it. `trim` drops blanks from
both ends; `trimEnd` works on reversed text, which is what a reader of suffixes wants.
-/

namespace ProxyForge

namespace Text

/-- The property *White_Space*. -/
def isBlank (c : Char) : Bool :=
  let n := c.toNat
  (0x9 ≤ n && n ≤ 0xd) || n == 0x20 || n == 0x85 || n == 0xa0 || n == 0x1680 ||
    (0x2000 ≤ n && n ≤ 0x200a) || n == 0x2028 || n == 0x2029 || n == 0x202f || n == 0x205f ||
    n == 0x3000

/-- Text without the blanks at its start. -/
def trimStart (s : List Char) : List Char :=
  s.dropWhile isBlank

/-- Text without the blanks at either end. -/
def trim (s : List Char) : List Char :=
  (trimStart (trimStart s).reverse).reverse

/-- A text of blanks only. -/
def isAllBlank (s : String) : Bool :=
  s.toList.all isBlank

end Text

end ProxyForge
