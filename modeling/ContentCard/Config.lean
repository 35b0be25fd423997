import ContentCard.Color
import ContentCard.Style.Keyword

/-!
What a host can set for all cards: the documented defaults in one place.
-/

namespace ContentCard

/-- What wins where a box has both a length and a fill flag on one axis. -/
inductive FillPrecedence
  | fill
  | explicit
deriving DecidableEq, Repr, Inhabited

def FillPrecedence.name : FillPrecedence → String
  | fill => "fill"
  | explicit => "explicit"

structure ButtonDefaults where
  textColor : Color := .white
  background : Color := .systemBlue
  borderRadius : Float32 := 4
  bottomMargin : Float32 := 8
  paddingHorizontal : Float32 := 16
  paddingVertical : Float32 := 8
deriving BEq, Repr

structure Config where
  fontSize : Float32 := 14
  imageDefaultHeight : Float32 := 80
  contentScale : ContentScale := .fit
  fillPrecedence : FillPrecedence := .fill
  /-- A line is as high as its font size and this. -/
  lineHeightExtra : Float32 := 4
  /-- A character is as wide as its font size times this. -/
  charWidthFactor : Float32 := 0.6
  button : ButtonDefaults := {}
deriving BEq, Repr

instance : Inhabited ButtonDefaults := ⟨{}⟩

instance : Inhabited Config := ⟨{}⟩

end ContentCard
