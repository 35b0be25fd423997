import ContentCard.Geometry
import ContentCard.Style.Keyword
import ContentCard.Text.Wrap

/-!
The size of a text in a font size and weight.
-/

namespace ContentCard

/-- The size of a text as it stands, without breaking its lines. -/
abbrev Measurer := String → Float32 → FontWeight → Size

/-- Every character has the same width, and every line the same height. -/
structure Estimate where
  charWidthFactor : Float32 := 0.6
  lineHeightExtra : Float32 := 4
deriving BEq, Repr

namespace Text

def widest (width : List Char → Float32) (lines : List (List Char)) : Float32 :=
  lines.foldl (fun w line => Number.max w (width line)) 0

end Text

namespace Estimate

/-- Bold characters are a tenth wider. -/
def advance (e : Estimate) (size : Float32) (weight : FontWeight) : Float32 :=
  let width := size * e.charWidthFactor
  if weight.isBold then width * 1.1 else width

def lineHeight (e : Estimate) (size : Float32) : Float32 := size + e.lineHeightExtra

def measure (e : Estimate) : Measurer := fun text size weight =>
  let lines := Text.paragraphs text.toList
  let advance := e.advance size weight
  { width := Text.widest (fun line => Float32.ofNat line.length * advance) lines
    height := Float32.ofNat lines.length * e.lineHeight size }

end Estimate

namespace Measurer

def advance (m : Measurer) (size : Float32) (weight : FontWeight) (c : Char) : Float32 :=
  (m (String.singleton c) size weight).width

def wrap (m : Measurer) (text : String) (size : Float32) (weight : FontWeight)
    (limit : Option Float32) : List String :=
  (Text.wrap (m.advance size weight) limit text.toList).map String.ofList

end Measurer

end ContentCard
