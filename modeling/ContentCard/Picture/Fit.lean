import ContentCard.Geometry
import ContentCard.Style.Keyword

/-!
The place of an image in a box, by its content scale.
-/

namespace ContentCard

/-- The rectangle that an image is stretched to, and whether the box cuts it off. -/
structure Fit where
  dest : Rect
  clipped : Bool
deriving BEq, Repr

namespace Rect

/-- A rectangle of the given size around the centre. -/
def centered (r : Rect) (width height : Float32) : Rect :=
  ⟨r.x + (r.width - width) / 2, r.y + (r.height - height) / 2, width, height⟩

end Rect

/-- `fit` shows the whole image, `fill` and `crop` cover the box with it, and `none` keeps its size.
An image without an area takes the box. -/
def Fit.of (scale : ContentScale) (image : Size) (bounds : Rect) : Fit :=
  if image.width ≤ 0 ∨ image.height ≤ 0 then ⟨bounds, true⟩
  else
    let across := bounds.width / image.width
    let down := bounds.height / image.height
    let scaled (s : Float32) : Rect := bounds.centered (image.width * s) (image.height * s)
    match scale with
    | .fit => ⟨scaled (Number.min across down), false⟩
    | .fill | .crop => ⟨scaled (Number.max across down), true⟩
    | .unscaled => ⟨bounds.centered image.width image.height, true⟩

end ContentCard
