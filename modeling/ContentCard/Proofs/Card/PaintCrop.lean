import ContentCard.Card.Paint
import ContentCard.Proofs.Canvas.Wash
import ContentCard.Proofs.Card.TapReach

/-!
# A smaller canvas shows a part of the larger one

Every mark of a painting is one wash for canvases of all sizes, and clips are not cut to the canvas.
A card that is painted on a smaller canvas therefore shows there what the top left part of a larger
one shows.
-/

namespace ContentCard

namespace Canvas

/-- The top left part of a canvas, under the same clips. -/
def crop (c : Canvas) (width height : Nat) : Canvas :=
  { c with picture := c.picture.crop width height }

theorem crop_wash (c : Canvas) (w : Wash) (width height : Nat) :
    (c.wash w).crop width height = (c.crop width height).wash w := by
  refine eq_wash rfl rfl rfl fun x y => ?_
  have hadmits : (c.crop width height).admits x y = c.admits x y := rfl
  rw [hadmits]
  simp only [crop, Picture.pixel?_crop, pixel?_wash]
  split <;> rfl

/-- An untouched canvas of the given size, in one colour or without any. -/
def fresh (width height : Nat) (background : Option Color) : Canvas :=
  match background with
  | some color => (blank width height).clear color
  | none => blank width height

theorem crop_filled {width height width' height' : Nat} (hwidth : width ≤ width')
    (hheight : height ≤ height') (color : Rgba) :
    (Picture.filled width' height' color).crop width height = .filled width height color := by
  refine Picture.ext_pixel? (Nat.min_eq_left hwidth) (Nat.min_eq_left hheight) fun x y => ?_
  rw [Picture.pixel?_crop, Picture.pixel?_filled, Picture.pixel?_filled]
  split
  · rw [if_pos (by omega)]
  · rfl

theorem crop_fresh {width height width' height' : Nat} (hwidth : width ≤ width')
    (hheight : height ≤ height') (background : Option Color) :
    (fresh width' height' background).crop width height = fresh width height background := by
  cases background <;> exact congrArg (Canvas.mk · []) (crop_filled hwidth hheight _)

end Canvas

namespace Easel

/-- The top left part of an easel's canvas. -/
def crop (e : Easel) (width height : Nat) : Easel := { e with canvas := e.canvas.crop width height }

/-- One mark. -/
theorem draw_crop (e : Easel) (m : Mark) (width height : Nat) :
    (e.crop width height).draw m = (e.draw m).crop width height := by
  have hdrawn (h : m.IsDrawn) : (e.crop width height).draw m = (e.draw m).crop width height := by
    obtain ⟨w, glyphs, hw⟩ := draw_eq_wash h e.glyphs
    show draw ⟨e.canvas.crop width height, e.glyphs⟩ m = (draw ⟨e.canvas, e.glyphs⟩ m).crop _ _
    rw [hw, hw, crop, Canvas.crop_wash]
  cases m with
  | clip | unclip => rfl
  | fill | stroke | line | image | letters => exact hdrawn trivial

end Easel

/-- All marks. -/
theorem Canvas.draw_crop (c : Canvas) (marks : List Mark) (width height : Nat) :
    (c.crop width height).draw marks = (c.draw marks).crop width height := by
  have h : marks.foldl Easel.draw (Easel.crop ⟨c, []⟩ width height) =
      (marks.foldl Easel.draw ⟨c, []⟩).crop width height :=
    List.foldl_hom (Easel.crop · width height) fun e m => e.draw_crop m width height
  exact congrArg Easel.canvas h

/-- What a card shows on a fresh canvas is the top left part of what it shows on a larger one. -/
theorem Card.paint_fresh_eq_crop (card : Card) (p : PaintBox) (background : Option Color)
    {width height width' height' : Nat} (hwidth : width ≤ width') (hheight : height ≤ height') :
    card.paint p (.fresh width height background) =
      (card.paint p (.fresh width' height' background)).crop width height := by
  rw [← Canvas.crop_fresh hwidth hheight background]
  exact Canvas.draw_crop _ _ width height

/-- The button that sticks out of its card, cut off by a white canvas and by one that holds it. -/
theorem narrowCard_paint_eq_crop :
    60 ≤ 200 ∧ 20 ≤ 40 ∧
      narrowCard.paint ⟨none, fun _ => .pending⟩ (.fresh 60 20 (some .white)) =
        (narrowCard.paint ⟨none, fun _ => .pending⟩ (.fresh 200 40 (some .white))).crop 60 20 :=
  ⟨by decide, by decide, narrowCard.paint_fresh_eq_crop _ _ (by decide) (by decide)⟩

end ContentCard
