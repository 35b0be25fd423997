import ContentCard.Canvas

/-!
Rounded rectangles and lines.

The coverage of a pixel is the part of it inside the shape, from the distance of its centre to the
outline: half a pixel inside it is covered, half a pixel outside it is not.
-/

namespace ContentCard.Canvas

/-- The distance of a point to a rounded rectangle's outline; inside it is negative. -/
def outlineDistance (r : Rect) (radius : Float32) (p : Point) : Float32 :=
  let hx := r.width / 2
  let hy := r.height / 2
  let radius := Number.min (Number.min (Number.max radius 0) hx) hy
  let qx := Float32.abs (p.x - (r.x + hx)) - (hx - radius)
  let qy := Float32.abs (p.y - (r.y + hy)) - (hy - radius)
  let ox := Number.max qx 0
  let oy := Number.max qy 0
  Float32.sqrt (ox * ox + oy * oy) + Number.min (Number.max qx qy) 0 - radius

def coverageAt (distance : Float32) : Float32 := Number.clamp 0 1 (0.5 - distance)

def roundedCoverage (r : Rect) (radius : Float32) (p : Point) : Float32 :=
  coverageAt (outlineDistance r radius p)

/-- A shape has something to show. -/
def isVisible (r : Rect) (color : Color) : Bool :=
  !(r.width ≤ 0 || r.height ≤ 0 || color.isTransparent)

def fillRounded (c : Canvas) (r : Rect) (radius : Float32) (color : Color) : Canvas :=
  if isVisible r color then
    let source := color.toRgba
    c.shade (.of r) fun x y => source.faded (roundedCoverage r radius (pixelCentre x y))
  else c

def fill (c : Canvas) (r : Rect) (color : Color) : Canvas := c.fillRounded r 0 color

/-- What the inner outline of a frame cuts out of it. -/
def holeCoverage (r : Rect) (radius width : Float32) (p : Point) : Float32 :=
  let inner : Rect :=
    ⟨r.x + width, r.y + width,
      Number.max (r.width - width * 2) 0, Number.max (r.height - width * 2) 0⟩
  if 0 < inner.width ∧ 0 < inner.height then
    roundedCoverage inner (Number.max (radius - width) 0) p
  else 0

/-- A frame of the given width inside the rectangle. -/
def strokeRounded (c : Canvas) (r : Rect) (radius width : Float32) (color : Color) : Canvas :=
  if isVisible r color && !(width ≤ 0) then
    let source := color.toRgba
    c.shade (.of r) fun x y =>
      let p := pixelCentre x y
      source.faded (roundedCoverage r radius p - holeCoverage r radius width p)
  else c

/-- The distance of a point to a line segment. -/
def segmentDistance (a b p : Point) : Float32 :=
  let dx := b.x - a.x
  let dy := b.y - a.y
  let square := dx * dx + dy * dy
  let t :=
    if 0 < square then Number.clamp 0 1 (((p.x - a.x) * dx + (p.y - a.y) * dy) / square) else 0
  let ex := p.x - (a.x + dx * t)
  let ey := p.y - (a.y + dy * t)
  Float32.sqrt (ex * ex + ey * ey)

/-- A line is at least one pixel wide. -/
def line (c : Canvas) (a b : Point) (width : Float32) (color : Color) : Canvas :=
  let half := Number.max width 1 / 2
  let bounds : Rect :=
    { x := Number.min a.x b.x - half
      y := Number.min a.y b.y - half
      width := Float32.abs (a.x - b.x) + half * 2
      height := Float32.abs (a.y - b.y) + half * 2 }
  let source := color.toRgba
  c.shade (.of bounds) fun x y =>
    source.faded (Number.clamp 0 1 (half + 0.5 - segmentDistance a b (pixelCentre x y)))

end ContentCard.Canvas
