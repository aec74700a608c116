/-!
# Columns

Text filled with spaces to a least width, counted in characters.
-/

namespace ProxyForge

namespace Text

/-- Filled on the right, so that the text stands at the left edge. -/
def padRight (width : Nat) (s : String) : String :=
  s ++ String.ofList (List.replicate (width - s.length) ' ')

/-- Filled on the left, so that the text stands at the right edge. -/
def padLeft (width : Nat) (s : String) : String :=
  String.ofList (List.replicate (width - s.length) ' ') ++ s

end Text

end ProxyForge
