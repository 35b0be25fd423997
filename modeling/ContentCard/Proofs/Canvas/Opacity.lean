import ContentCard.Canvas.Operation
import ContentCard.Proofs.Canvas.Wash
import ContentCard.Proofs.Color.Mixing

/-!
# Opacity

A colour that is mixed over a pixel leaves it at least as opaque as it was.  So of all that is done
to a canvas only clearing can make it more transparent.
-/

namespace ContentCard

/-! ## 1. Pictures -/

namespace Picture

/-- The second picture has the size of the first, and shows nowhere a more transparent pixel. -/
structure AsOpaque (p q : Picture) : Prop where
  width : q.width = p.width
  height : q.height = p.height
  alpha : ∀ x y, ∀ old ∈ p.pixel? x y, ∃ new ∈ q.pixel? x y, old.a ≤ new.a

variable {p q r : Picture}

theorem AsOpaque.refl (p : Picture) : p.AsOpaque p :=
  ⟨rfl, rfl, fun _ _ old hold => ⟨old, hold, UInt8.le_refl _⟩⟩

theorem AsOpaque.trans (h : p.AsOpaque q) (h' : q.AsOpaque r) : p.AsOpaque r where
  width := h'.width.trans h.width
  height := h'.height.trans h.height
  alpha x y old hold := by
    obtain ⟨new, hnew, hle⟩ := h.alpha x y old hold
    obtain ⟨newer, hnewer, hle'⟩ := h'.alpha x y new hnew
    exact ⟨newer, hnewer, UInt8.le_trans hle hle'⟩

/-- A change of each pixel on its own. -/
theorem asOpaque_of_pixel? (hwidth : q.width = p.width) (hheight : q.height = p.height)
    {f : Nat → Nat → Rgba → Rgba} (hf : ∀ x y old, old.a ≤ (f x y old).a)
    (h : ∀ x y, q.pixel? x y = (p.pixel? x y).map (f x y)) : p.AsOpaque q where
  width := hwidth
  height := hheight
  alpha x y old hold := by
    rw [h x y]
    exact ⟨f x y old, Option.mem_map_of_mem _ hold, hf x y old⟩

end Picture

/-! ## 2. Drawings -/

namespace Canvas

variable (c : Canvas)

theorem asOpaque_blend (x y : Int) (source : Rgba) :
    c.picture.AsOpaque (c.blend x y source).picture := by
  obtain ⟨hwidth, hheight⟩ := c.size_blend x y source
  refine Picture.asOpaque_of_pixel? hwidth hheight (fun i j old => ?_) (c.pixel?_blend x y source)
  split
  · exact source.alpha_le_blendOver old
  · exact UInt8.le_refl _

theorem asOpaque_shade (span : Span) (source : Nat → Nat → Rgba) :
    c.picture.AsOpaque (c.shade span source).picture := by
  obtain ⟨hwidth, hheight⟩ := c.size_shade span source
  refine Picture.asOpaque_of_pixel? hwidth hheight (fun x y old => ?_) (c.pixel?_shade span source)
  split
  · exact (source x y).alpha_le_blendOver old
  · exact UInt8.le_refl _

theorem asOpaque_fillRounded (r : Rect) (radius : Float32) (color : Color) :
    c.picture.AsOpaque (c.fillRounded r radius color).picture := by
  rw [fillRounded]
  split
  · exact c.asOpaque_shade _ _
  · exact .refl _

theorem asOpaque_strokeRounded (r : Rect) (radius width : Float32) (color : Color) :
    c.picture.AsOpaque (c.strokeRounded r radius width color).picture := by
  rw [strokeRounded]
  split
  · exact c.asOpaque_shade _ _
  · exact .refl _

theorem asOpaque_image (picture : Picture) (dest : Rect) :
    c.picture.AsOpaque (c.image picture dest).picture := by
  rw [image]
  split
  · exact .refl _
  · exact c.asOpaque_shade _ _

theorem asOpaque_maskFrom (x y : Int) (width : Nat) (source : Rgba) (i : Nat)
    (coverage : List UInt8) :
    c.picture.AsOpaque (c.maskFrom x y width source i coverage).picture := by
  induction coverage generalizing c i with
  | nil => exact .refl _
  | cons b rest ih =>
    rw [maskFrom]
    refine Picture.AsOpaque.trans ?_ (ih _ (i + 1))
    split
    · exact .refl _
    · exact c.asOpaque_blend _ _ _

theorem asOpaque_mask (x y : Int) (width : Nat) (coverage : List UInt8) (color : Color) :
    c.picture.AsOpaque (c.mask x y width coverage color).picture := by
  rw [mask]
  split
  · exact .refl _
  · exact c.asOpaque_maskFrom x y width color.toRgba 0 coverage

theorem asOpaque_perform {op : Operation} (h : ∀ color, op ≠ .clear color) :
    c.picture.AsOpaque (c.perform op).picture := by
  cases op with
  | clear color => exact absurd rfl (h color)
  | pushClip | popClip => exact .refl _
  | pixel x y color coverage => exact c.asOpaque_blend x y _
  | fill r radius color => exact c.asOpaque_fillRounded r radius color
  | stroke r radius width color => exact c.asOpaque_strokeRounded r radius width color
  | line a b width color => exact c.asOpaque_shade _ _
  | mask x y width coverage color => exact c.asOpaque_mask x y width coverage color
  | image picture dest => exact c.asOpaque_image picture dest

theorem asOpaque_performAll {operations : List Operation}
    (h : ∀ color, .clear color ∉ operations) :
    c.picture.AsOpaque (c.performAll operations).picture := by
  induction operations generalizing c with
  | nil => exact .refl _
  | cons op rest ih =>
    have hop (color : Color) : op ≠ .clear color := fun he =>
      h color (he ▸ List.mem_cons_self)
    have hrest (color : Color) : .clear color ∉ rest := fun hmem =>
      h color (List.mem_cons_of_mem op hmem)
    exact (c.asOpaque_perform hop).trans (ih _ hrest)

/-- Without clearing, a canvas keeps its size and none of its pixels becomes more transparent.  A
canvas that was cleared to an opaque colour stays opaque. -/
theorem performAll_never_more_transparent {operations : List Operation}
    (h : ∀ color, .clear color ∉ operations) :
    c.picture.AsOpaque (c.performAll operations).picture ∧
      ∀ color : Color, color.toRgba.a = 255 → ∀ x y,
        ∀ pixel ∈ ((c.clear color).performAll operations).picture.pixel? x y, pixel.a = 255 := by
  refine ⟨c.asOpaque_performAll h, fun color hcolor x y pixel hpixel => ?_⟩
  have hkept := (c.clear color).asOpaque_performAll h
  -- the pixel is on the canvas, and clearing has given it the colour
  have hin := Picture.isSome_pixel?_iff.mp (Option.isSome_of_mem hpixel)
  rw [hkept.width, hkept.height] at hin
  have hold : color.toRgba ∈ (c.clear color).picture.pixel? x y :=
    (Picture.pixel?_filled _ _ _ _ _).trans (if_pos hin)
  obtain ⟨new, hnew, hle⟩ := hkept.alpha x y _ hold
  obtain rfl := Option.mem_unique hpixel hnew
  rw [hcolor] at hle
  exact UInt8.le_antisymm (Rgba.alpha_le_max pixel) hle

/-- A translucent square is mixed over a part of a white canvas. -/
theorem veil_never_more_transparent :
    let veil : List Operation :=
      [.pushClip ⟨1, 0, 2, 2⟩, .fill ⟨0, 0, 3, 3⟩ 1 ⟨1, 0, 0, 0.5⟩, .popClip]
    (∀ color, .clear color ∉ veil) ∧ Color.white.toRgba.a = 255 ∧
      (blank 3 3).picture.AsOpaque ((blank 3 3).performAll veil).picture ∧
      ∀ x y, ∀ pixel ∈ (((blank 3 3).clear .white).performAll veil).picture.pixel? x y,
        pixel.a = 255 := by
  intro veil
  have hveil : ∀ color, .clear color ∉ veil := fun color => by simp [veil]
  have hwhite : Color.white.toRgba.a = 255 := by decide +kernel
  obtain ⟨hkept, hopaque⟩ := (blank 3 3).performAll_never_more_transparent hveil
  exact ⟨hveil, hwhite, hkept, hopaque .white hwhite⟩

end Canvas

end ContentCard
