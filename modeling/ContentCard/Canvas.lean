import ContentCard.Color.Blend
import ContentCard.Geometry
import ContentCard.Picture

/-!
A picture to draw on, and the rectangles that limit what drawing may change.

A pixel may be changed if its centre is in the innermost clip.  A clip is cut to the one around it,
so that it never admits more.
-/

namespace ContentCard

/-- Clips stand innermost first. -/
structure Canvas where
  picture : Picture
  clips : List Rect := []
deriving Inhabited

/-- The centre of a pixel. -/
def pixelCentre (x y : Nat) : Point := ⟨Float32.ofNat x + 0.5, Float32.ofNat y + 0.5⟩

/-- The rectangle holds its left and top edges, but not the other two. -/
def Rect.admits (r : Rect) (p : Point) : Bool :=
  !(p.x < r.x || r.right ≤ p.x || p.y < r.y || r.bottom ≤ p.y)

/-- The same colour, less opaque by a coverage.  A coverage above 1 counts as 1. -/
def Rgba.faded (c : Rgba) (coverage : Float32) : Rgba :=
  { c with a := Number.toByte (Number.round (c.a.toFloat32 * Number.min coverage 1)) }

namespace Canvas

def blank (width height : Nat) : Canvas := ⟨.blank width height, []⟩

def width (c : Canvas) : Nat := c.picture.width

def height (c : Canvas) : Nat := c.picture.height

/-- Every pixel takes the colour, in any clip. -/
def clear (c : Canvas) (color : Color) : Canvas :=
  { c with picture := .filled c.width c.height color.toRgba }

def pushClip (c : Canvas) (r : Rect) : Canvas :=
  let clip := match c.clips with
    | [] => r
    | current :: _ => (current.intersection? r).getD ⟨r.x, r.y, 0, 0⟩
  { c with clips := clip :: c.clips }

def popClip (c : Canvas) : Canvas := { c with clips := c.clips.tail }

def admits (c : Canvas) (x y : Nat) : Bool :=
  (c.clips.head?.map (·.admits (pixelCentre x y))).getD true

/-- The colour of a pixel; outside the picture all is transparent. -/
def color (c : Canvas) (x y : Nat) : Color :=
  ((c.picture.pixel? x y).map Color.ofRgba).getD .transparent

/-- Mixes a colour over one pixel. -/
def blend (c : Canvas) (x y : Int) (source : Rgba) : Canvas :=
  match x, y with
  | .ofNat x, .ofNat y =>
    if x < c.width ∧ y < c.height ∧ c.admits x y then
      { c with picture := c.picture.modify x y source.blendOver }
    else c
  | _, _ => c

def blendPixel (c : Canvas) (x y : Int) (color : Color) (coverage : Float32) : Canvas :=
  c.blend x y (color.toRgba.faded coverage)

/-- A block of pixels, each side given by its first pixel and the one behind its last. -/
structure Span where
  left : Int
  top : Int
  right : Int
  bottom : Int
deriving DecidableEq, Repr

/-- The pixels that a rectangle touches. -/
def Span.of (r : Rect) : Span where
  left := Number.toInt32 (Number.floor r.x)
  top := Number.toInt32 (Number.floor r.y)
  right := Number.toInt32 (Number.ceil r.right)
  bottom := Number.toInt32 (Number.ceil r.bottom)

/-- Mixes colours over the pixels of a span, each by its column and row. -/
def shade (c : Canvas) (span : Span) (source : Nat → Nat → Rgba) : Canvas :=
  let left := span.left.toNat
  let top := span.top.toNat
  let right := min c.width span.right.toNat
  let bottom := min c.height span.bottom.toNat
  let clip := c.clips.head?
  let change (x y : Nat) (old : Rgba) : Rgba :=
    if (clip.map (·.admits (pixelCentre x y))).getD true then (source x y).blendOver old else old
  { c with picture := c.picture.modifyBlock left top (right - left) (bottom - top) change }

end Canvas

end ContentCard
