/-!
# Styled text

Terminal output is a list of spans, each with at most one style, and a palette says how a style
is switched on. Rendering with the palette that is off gives the plain text of the spans, so
colour never carries content.
-/

namespace ProxyForge

namespace Text

/-- What a span is, which decides its colour. -/
inductive Style
  /-- Opcodes, member names and headings. -/
  | blue
  /-- Constants and literals. -/
  | green
  /-- Branch targets and labels. -/
  | yellow
  /-- Offsets, indexes and descriptors. -/
  | dim
  deriving DecidableEq, Repr

/-- The control sequences of a terminal, or none of them. -/
structure Palette where
  blue : String
  green : String
  yellow : String
  dim : String
  reset : String
  deriving DecidableEq, Repr

namespace Palette

/-- Sixteen-colour sequences, readable on light and dark backgrounds. -/
def on : Palette where
  blue := "\x1b[34m"
  green := "\x1b[32m"
  yellow := "\x1b[33m"
  dim := "\x1b[2m"
  reset := "\x1b[0m"

/-- No sequences at all. -/
def off : Palette := ⟨"", "", "", "", ""⟩

instance : Inhabited Palette := ⟨off⟩

/-- The palette for a colour switch. -/
def ofBool (enabled : Bool) : Palette :=
  if enabled then on else off

/-- Does the palette write anything? -/
def isEnabled (p : Palette) : Bool :=
  p.reset ≠ ""

/-- The sequence that switches a style on. -/
def start (p : Palette) : Style → String
  | .blue => p.blue
  | .green => p.green
  | .yellow => p.yellow
  | .dim => p.dim

/-- The text in a style, followed by a reset. -/
def paint (p : Palette) (style : Style) (text : String) : String :=
  if p.isEnabled then p.start style ++ text ++ p.reset else text

end Palette

/-- A run of text in one style, or in none. -/
structure Span where
  style : Option Style
  text : String
  deriving DecidableEq, Repr

/-- Styled text, left to right. -/
abbrev Styled := List Span

namespace Styled

/-- Text in no style. -/
def plain (text : String) : Styled := [⟨none, text⟩]

/-- Text in a style. -/
def styled (style : Style) (text : String) : Styled := [⟨some style, text⟩]

instance : Coe String Styled := ⟨plain⟩

/-- One span under a palette. -/
def renderSpan (p : Palette) (s : Span) : String :=
  match s.style with
  | none => s.text
  | some style => p.paint style s.text

/-- The whole text under a palette. -/
def render (p : Palette) (t : Styled) : String :=
  String.join (t.map (renderSpan p))

end Styled

end Text

end ProxyForge
