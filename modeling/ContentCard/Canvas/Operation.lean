import ContentCard.Canvas.Bitmap
import ContentCard.Canvas.Shape

/-!
Operations on a canvas.
-/

namespace ContentCard.Canvas

inductive Operation
  | clear (color : Color)
  | pushClip (r : Rect)
  | popClip
  | pixel (x y : Int) (color : Color) (coverage : Float32)
  | fill (r : Rect) (radius : Float32) (color : Color)
  | stroke (r : Rect) (radius width : Float32) (color : Color)
  | line (a b : Point) (width : Float32) (color : Color)
  | mask (x y : Int) (width : Nat) (coverage : List UInt8) (color : Color)
  | image (picture : Picture) (dest : Rect)

def perform (c : Canvas) : Operation → Canvas
  | .clear color => c.clear color
  | .pushClip r => c.pushClip r
  | .popClip => c.popClip
  | .pixel x y color coverage => c.blendPixel x y color coverage
  | .fill r radius color => c.fillRounded r radius color
  | .stroke r radius width color => c.strokeRounded r radius width color
  | .line a b width color => c.line a b width color
  | .mask x y width coverage color => c.mask x y width coverage color
  | .image picture dest => c.image picture dest

def performAll (c : Canvas) (operations : List Operation) : Canvas := operations.foldl perform c

end ContentCard.Canvas
