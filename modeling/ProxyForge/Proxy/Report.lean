import ProxyForge.Json.Basic
import ProxyForge.Proxy.Plan
import ProxyForge.Text.Column
import ProxyForge.Text.Styled
/-!
# Reports of plans

A plan for a reader, a line for each member, and a plan as JSON.
-/

namespace ProxyForge

namespace Proxy

open Text (Palette padLeft padRight)

/-- The word for an origin. -/
def Origin.word : Origin → String
  | universal => "universal"
  | base => "base"
  | interface => "interface"

namespace Planned

/-- The line of a member: slot, dispatch id, origin, key, declaring type. The key is filled to a
width before it is painted, the id after. -/
def line (p : Palette) (keyWidth : Nat) (m : Planned) : String :=
  p.paint .dim ("m" ++ padRight 4 (toString m.slot)) ++ " " ++
    padLeft 11 (p.paint .green (toString m.id)) ++ "  " ++ padRight 9 m.origin.word ++ "  " ++
    p.paint .blue (padRight keyWidth m.key) ++ "  " ++ p.paint .dim m.declaring ++ "\n"

/-- A member as JSON. -/
def toJson (m : Planned) : Json :=
  .obj [("declaring", .str m.declaring), ("id", .int m.id.toInt), ("key", .str m.key),
    ("origin", .str m.origin.word), ("slot", .int m.slot.toNat)]

end Planned

namespace Plan

/-- The length of the longest key, in bytes. -/
def keyWidth (p : Plan) : Nat :=
  p.members.foldl (fun width m => max width m.key.utf8ByteSize) 0

/-- The line that names the base, if there is one. -/
def baseLine (palette : Palette) (p : Plan) : String :=
  match p.base with
  | some base => "base " ++ palette.paint .blue base.name ++ "\n"
  | none => ""

/-- The plan as lines. -/
def table (palette : Palette) (p : Plan) : String :=
  p.baseLine palette ++ String.join (p.members.map (Planned.line palette p.keyWidth))

/-- The plan as JSON. -/
def toJson (p : Plan) : Json :=
  .obj [("base", (p.base.map fun c => Json.str c.name).getD .null),
    ("members", .arr (p.members.map Planned.toJson))]

end Plan

end Proxy

end ProxyForge
