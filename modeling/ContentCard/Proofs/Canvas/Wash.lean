import ContentCard.Canvas.Mark
import ContentCard.Proofs.Picture.Pixels

/-!
# Drawing, pixel by pixel

Whatever is drawn changes each pixel of the canvas on its own: what becomes of it is settled by its
place and its old colour, and pixels that the clip does not admit stay (`Canvas.wash`).  All that is
said here of fills, frames, lines, masks, images and glyphs is that they are such washes, each of
them the same for canvases of any size.
-/

namespace ContentCard

/-- What becomes of the colour of a pixel, by its column and row. -/
abbrev Wash := Nat → Nat → Rgba → Rgba

namespace Canvas

/-! ## 1. Washes -/

/-- Changes every pixel that the clip admits. -/
def wash (c : Canvas) (w : Wash) : Canvas :=
  { c with picture := c.picture.mapPixels fun x y old => if c.admits x y then w x y old else old }

@[simp] theorem clips_wash (c : Canvas) (w : Wash) : (c.wash w).clips = c.clips := rfl

theorem pixel?_wash (c : Canvas) (w : Wash) (x y : Nat) :
    (c.wash w).picture.pixel? x y =
      (c.picture.pixel? x y).map fun old => if c.admits x y then w x y old else old :=
  Picture.pixel?_mapPixels _ _ _ _

/-- What shows nowhere a difference to a wash is that wash. -/
theorem eq_wash {c d : Canvas} {w : Wash} (hclips : d.clips = c.clips)
    (hwidth : d.picture.width = c.picture.width) (hheight : d.picture.height = c.picture.height)
    (hpixel : ∀ x y, d.picture.pixel? x y =
      (c.picture.pixel? x y).map fun old => if c.admits x y then w x y old else old) :
    d = c.wash w := by
  obtain ⟨picture, clips⟩ := d
  cases hclips
  have hpicture : picture = (c.wash w).picture :=
    Picture.ext_pixel? hwidth hheight fun x y => (hpixel x y).trans (c.pixel?_wash w x y).symm
  rw [hpicture]
  rfl

theorem wash_id (c : Canvas) : c = c.wash fun _ _ old => old :=
  eq_wash rfl rfl rfl fun x y => by simp

theorem wash_wash (c : Canvas) (w w' : Wash) :
    (c.wash w).wash w' = c.wash fun x y old => w' x y (w x y old) := by
  refine eq_wash rfl rfl rfl fun x y => ?_
  have hadmits : (c.wash w).admits x y = c.admits x y := rfl
  rw [pixel?_wash, pixel?_wash, hadmits, Option.map_map]
  congr 1
  funext old
  dsimp only [Function.comp_apply]
  split <;> rfl

/-- A drawing is one wash for all canvases. -/
def IsWash (draw : Canvas → Canvas) : Prop := ∃ w, ∀ c, draw c = c.wash w

theorem isWash_id : IsWash id := ⟨_, wash_id⟩

theorem IsWash.comp {draw draw' : Canvas → Canvas} (h : IsWash draw) (h' : IsWash draw') :
    IsWash fun c => draw' (draw c) := by
  obtain ⟨w, hw⟩ := h
  obtain ⟨w', hw'⟩ := h'
  exact ⟨_, fun c => by show draw' (draw c) = _; rw [hw, hw', wash_wash]⟩

theorem IsWash.ite {draw draw' : Canvas → Canvas} (h : IsWash draw) (h' : IsWash draw') (p : Prop)
    [Decidable p] : IsWash fun c => if p then draw c else draw' c := by
  split
  · exact h
  · exact h'

/-! ## 2. Drawings -/

variable (c : Canvas)

/-- One pixel. -/
theorem pixel?_blend (x y : Int) (source : Rgba) (i j : Nat) :
    (c.blend x y source).picture.pixel? i j = (c.picture.pixel? i j).map fun old =>
      if ((i : Int) = x ∧ (j : Int) = y) ∧ c.admits i j then source.blendOver old else old := by
  match x, y with
  | .negSucc _, _ | .ofNat _, .negSucc _ =>
    show c.picture.pixel? i j = _
    simp
  | .ofNat x, .ofNat y =>
    show (if x < c.width ∧ y < c.height ∧ c.admits x y then _ else c : Canvas).picture.pixel? i j =
      (c.picture.pixel? i j).map fun old => if ((i : Int) = x ∧ (j : Int) = y) ∧ _ then _ else _
    simp only [Int.ofNat_inj]
    split
    next h =>
      show (c.picture.modify x y source.blendOver).pixel? i j = _
      rw [Picture.pixel?_modify]
      by_cases hij : i = x ∧ j = y
      · rcases hij with ⟨rfl, rfl⟩
        simp [h.2.2]
      · simp [hij]
    next h =>
      -- the pixel is not on the canvas, or the clip does not admit it
      by_cases hij : i = x ∧ j = y
      · rcases hij with ⟨rfl, rfl⟩
        by_cases hin : i < c.width ∧ j < c.height
        · have hadmits : c.admits i j = false := by simpa [hin] using h
          simp [hadmits]
        · rw [Picture.pixel?_eq_none hin]
          rfl
      · simp [hij]

/-- The pixel lies in the span. -/
def Span.Holds (span : Span) (x y : Nat) : Prop :=
  (span.left ≤ x ∧ (x : Int) < span.right) ∧ span.top ≤ y ∧ (y : Int) < span.bottom

instance (span : Span) (x y : Nat) : Decidable (span.Holds x y) :=
  inferInstanceAs (Decidable (_ ∧ _))

/-- The pixels of a span that are on the canvas. -/
theorem pixel?_shade (span : Span) (source : Nat → Nat → Rgba) (x y : Nat) :
    (c.shade span source).picture.pixel? x y = (c.picture.pixel? x y).map fun old =>
      if span.Holds x y ∧ c.admits x y then (source x y).blendOver old else old := by
  show (c.picture.modifyBlock _ _ _ _ fun x y old =>
    if c.admits x y then (source x y).blendOver old else old).pixel? x y = _
  rw [Picture.pixel?_modifyBlock]
  by_cases hin : x < c.width ∧ y < c.height
  · -- on the canvas its edges cut nothing off the span
    have hspan : (span.left.toNat ≤ x ∧
          x < span.left.toNat + (min c.width span.right.toNat - span.left.toNat)) ∧
        (span.top.toNat ≤ y ∧
          y < span.top.toNat + (min c.height span.bottom.toNat - span.top.toNat)) ↔
        span.Holds x y := by
      unfold Span.Holds
      omega
    rw [if_congr hspan rfl rfl]
    split
    next h => simp [h]
    next h => simp [h]
  · rw [Picture.pixel?_eq_none hin]
    split <;> rfl

theorem size_blend (x y : Int) (source : Rgba) :
    (c.blend x y source).picture.width = c.picture.width ∧
      (c.blend x y source).picture.height = c.picture.height := by
  match x, y with
  | .negSucc _, _ | .ofNat _, .negSucc _ => exact ⟨rfl, rfl⟩
  | .ofNat x, .ofNat y =>
    rw [blend]
    split
    · exact ⟨Picture.width_modify _ _ _ _, Picture.height_modify _ _ _ _⟩
    · exact ⟨rfl, rfl⟩

theorem size_shade (span : Span) (source : Nat → Nat → Rgba) :
    (c.shade span source).picture.width = c.picture.width ∧
      (c.shade span source).picture.height = c.picture.height :=
  c.picture.size_modifyBlock _ _ _ _ _

@[simp] theorem clips_blend (x y : Int) (source : Rgba) : (c.blend x y source).clips = c.clips := by
  match x, y with
  | .negSucc _, _ | .ofNat _, .negSucc _ => rfl
  | .ofNat x, .ofNat y =>
    rw [blend]
    split <;> rfl

theorem isWash_blend (x y : Int) (source : Rgba) : IsWash (·.blend x y source) := by
  refine ⟨fun i j old => if (i : Int) = x ∧ (j : Int) = y then source.blendOver old else old,
    fun c => eq_wash (c.clips_blend x y source) (c.size_blend x y source).1
      (c.size_blend x y source).2 fun i j => ?_⟩
  rw [c.pixel?_blend x y source i j]
  congr 1
  funext old
  by_cases hadmits : c.admits i j <;> simp [hadmits]

theorem isWash_blendPixel (x y : Int) (color : Color) (coverage : Float32) :
    IsWash (·.blendPixel x y color coverage) := isWash_blend x y _

theorem isWash_shade (span : Span) (source : Nat → Nat → Rgba) : IsWash (·.shade span source) := by
  refine ⟨fun x y old => if span.Holds x y then (source x y).blendOver old else old,
    fun c => eq_wash rfl (c.size_shade span source).1 (c.size_shade span source).2 fun x y => ?_⟩
  rw [c.pixel?_shade span source x y]
  congr 1
  funext old
  by_cases hadmits : c.admits x y <;> simp [hadmits]

theorem isWash_fillRounded (r : Rect) (radius : Float32) (color : Color) :
    IsWash (·.fillRounded r radius color) := (isWash_shade _ _).ite isWash_id _

theorem isWash_strokeRounded (r : Rect) (radius width : Float32) (color : Color) :
    IsWash (·.strokeRounded r radius width color) := (isWash_shade _ _).ite isWash_id _

theorem isWash_line (a b : Point) (width : Float32) (color : Color) :
    IsWash (·.line a b width color) := isWash_shade _ _

theorem isWash_image (picture : Picture) (dest : Rect) : IsWash (·.image picture dest) :=
  isWash_id.ite (isWash_shade _ _) _

theorem isWash_maskFrom (x y : Int) (width : Nat) (source : Rgba) (i : Nat)
    (coverage : List UInt8) : IsWash (·.maskFrom x y width source i coverage) := by
  induction coverage generalizing i with
  | nil => exact isWash_id
  | cons b rest ih => exact (isWash_id.ite (isWash_blend _ _ _) (b = 0)).comp (ih (i + 1))

theorem isWash_mask (x y : Int) (width : Nat) (coverage : List UInt8) (color : Color) :
    IsWash (·.mask x y width coverage color) :=
  isWash_id.ite (isWash_maskFrom x y width color.toRgba 0 coverage) _

end Canvas

/-! ## 3. Marks -/

namespace Easel

/-- Glyphs and the cache that they leave are the same for all canvases. -/
theorem letters_eq_wash (glyphs : GlyphCache) (font : Font) (size baseline : Float32)
    (color : Color) (x : Float32) (text : List Char) :
    ∃ w glyphs', ∀ c : Canvas,
      letters ⟨c, glyphs⟩ font size baseline color x text = ⟨c.wash w, glyphs'⟩ := by
  induction text generalizing x glyphs with
  | nil => exact ⟨fun _ _ old => old, glyphs, fun c => congrArg (Easel.mk · glyphs) c.wash_id⟩
  | cons char rest ih =>
    rcases hrender : GlyphCache.render font glyphs char size with ⟨g, cache⟩
    let left := Number.toInt32 (Number.round (x + Float32.ofInt g.left))
    let top := Number.toInt32
      (Number.round (baseline - Float32.ofNat g.height - Float32.ofInt g.bottom))
    obtain ⟨w, hw⟩ := Canvas.isWash_mask left top g.width g.coverage color
    obtain ⟨w', glyphs', hrest⟩ := ih cache (x + g.advance)
    refine ⟨fun i j old => w' i j (w i j old), glyphs', fun c => ?_⟩
    calc
      letters ⟨c, glyphs⟩ font size baseline color x (char :: rest)
        = letters ⟨c.mask left top g.width g.coverage color, cache⟩ font size baseline color
            (x + g.advance) rest := by rw [letters, hrender]
      _ = letters ⟨c.wash w, cache⟩ font size baseline color (x + g.advance) rest := by rw [← hw]
      _ = ⟨(c.wash w).wash w', glyphs'⟩ := hrest _
      _ = _ := by rw [Canvas.wash_wash]

end Easel

/-- The mark is drawn, and is not about clips. -/
def Mark.IsDrawn : Mark → Prop
  | .clip _ | .unclip => False
  | .fill .. | .stroke .. | .line .. | .image .. | .letters .. => True

/-- A drawing is one wash for all canvases, and leaves one cache of glyphs. -/
theorem Easel.draw_eq_wash {m : Mark} (hm : m.IsDrawn) (glyphs : GlyphCache) :
    ∃ w glyphs', ∀ c : Canvas, draw ⟨c, glyphs⟩ m = ⟨c.wash w, glyphs'⟩ := by
  have hwash {f : Canvas → Canvas} (hf : Canvas.IsWash f)
      (hdraw : ∀ c, draw ⟨c, glyphs⟩ m = ⟨f c, glyphs⟩) :
      ∃ w glyphs', ∀ c, draw ⟨c, glyphs⟩ m = ⟨c.wash w, glyphs'⟩ := by
    obtain ⟨w, hw⟩ := hf
    exact ⟨w, glyphs, fun c => by rw [hdraw, hw]⟩
  cases m with
  | clip | unclip => exact hm.elim
  | fill r radius color => exact hwash (Canvas.isWash_fillRounded r radius color) fun _ => rfl
  | stroke r radius width color =>
    exact hwash (Canvas.isWash_strokeRounded r radius width color) fun _ => rfl
  | line a b width color => exact hwash (Canvas.isWash_line a b width color) fun _ => rfl
  | image picture dest => exact hwash (Canvas.isWash_image picture dest) fun _ => rfl
  | letters font text left top size color =>
    exact letters_eq_wash glyphs font size (top + font.ascentAt size) color left text

end ContentCard
