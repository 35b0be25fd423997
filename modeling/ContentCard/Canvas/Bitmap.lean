import ContentCard.Canvas

/-!
Coverage masks and images.
-/

namespace ContentCard.Canvas

/-- Coordinates are 32 bits wide. -/
def wrapCoordinate (n : Int) : Int := n.bmod 4294967296

/-- Draws the bytes of a mask from the one with the given index on. -/
def maskFrom (c : Canvas) (x y : Int) (width : Nat) (source : Rgba) : Nat → List UInt8 → Canvas
  | _, [] => c
  | i, b :: rest =>
    let c :=
      if b = 0 then c
      else
        c.blend (wrapCoordinate (x + (i % width : Nat))) (wrapCoordinate (y + (i / width : Nat)))
          (source.faded (b.toFloat32 / 255))
    maskFrom c x y width source (i + 1) rest

/-- Draws a mask of coverages, row by row from its top left corner. -/
def mask (c : Canvas) (x y : Int) (width : Nat) (coverage : List UInt8) (color : Color) : Canvas :=
  if width = 0 then c else c.maskFrom x y width color.toRgba 0 coverage

/-- The index of the image's row or column that covers the centre of a pixel. -/
def sample? (centre start scale : Float32) (count : Nat) : Option Nat :=
  let s := Number.floor ((centre - start) * scale)
  if s < 0 ∨ Float32.ofNat count ≤ s then none else some (Number.toUInt32 s)

/-- Stretches an image to a rectangle; every pixel takes the nearest one of the image. -/
def image (c : Canvas) (picture : Picture) (dest : Rect) : Canvas :=
  if dest.width ≤ 0 ∨ dest.height ≤ 0 ∨ picture.width = 0 ∨ picture.height = 0 then c
  else
    let across := Float32.ofNat picture.width / dest.width
    let down := Float32.ofNat picture.height / dest.height
    c.shade (.of dest) fun x y =>
      let p := pixelCentre x y
      match sample? p.x dest.x across picture.width, sample? p.y dest.y down picture.height with
      | some i, some j => (picture.pixel? i j).getD ⟨0, 0, 0, 0⟩
      | _, _ => ⟨0, 0, 0, 0⟩

end ContentCard.Canvas
