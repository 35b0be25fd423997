import ContentCard.Card.Paint
import ContentCard.Proofs.Canvas.Pixelwise

/-!
# Glyphs far away

The pixel of a byte of a mask is found by adding its column and row to the corner of the mask, in
32 bits.  The corner may be any coordinate, so the sum may be none, and wraps around.  It comes out
left of the picture or above it, and the byte is left out as it is at its exact place, unless the
mask is so large that the sum does not even fit into 32 bits without a sign.  The masks of glyphs
are not: a painting shows them at their exact places.
-/

namespace ContentCard

namespace Canvas

/-! ## 1. Coordinates -/

/-- Coordinates have 32 bits and a sign. -/
def IsCoordinate (n : Int) : Prop := -2147483648 ≤ n ∧ n < 2147483648

theorem wrapCoordinate_eq_iff {n : Int} : wrapCoordinate n = n ↔ IsCoordinate n := by
  refine ⟨fun h => ?_, fun h => wrapCoordinate_eq h.1 h.2⟩
  have hlow : -(2147483648 : Int) ≤ n.bmod 4294967296 := Int.le_bmod (by decide)
  have hhigh : n.bmod 4294967296 < (2147483648 : Int) := Int.bmod_lt (by decide)
  rw [wrapCoordinate] at h
  rw [h] at hlow hhigh
  exact ⟨hlow, hhigh⟩

/-- A number that is too large by less than 32 bits hold comes out negative. -/
theorem wrapCoordinate_neg {n : Int} (hlow : 2147483648 ≤ n) (hhigh : n < 4294967296) :
    wrapCoordinate n < 0 := by
  have hwrap : n.bmod 4294967296 = n - 4294967296 := by
    rw [← Int.sub_bmod_right n 4294967296]
    exact Int.bmod_eq_of_le (by norm_num; omega) (by norm_num; omega)
  rw [wrapCoordinate, hwrap]
  omega

theorem isCoordinate_toInt32 (x : Float32) : IsCoordinate (Number.toInt32 x) := by
  unfold IsCoordinate Number.toInt32 Number.toIntWithin
  split
  · omega
  · split
    · decide
    · split <;> decide

/-! ## 2. Pixels that are left out -/

section

variable (c : Canvas) (source : Rgba)

theorem blend_of_outside {x y : Int} (h : ¬((0 ≤ x ∧ x < c.width) ∧ 0 ≤ y ∧ y < c.height)) :
    c.blend x y source = c := by
  match x, y with
  | .negSucc _, _ | .ofNat _, .negSucc _ => rfl
  | .ofNat x, .ofNat y =>
    rw [blend, if_neg]
    intro hinside
    simp only [Int.ofNat_eq_natCast] at h
    omega

theorem blend_of_transparent (x y : Int) (h : source.a = 0) : c.blend x y source = c := by
  refine (eq_wash (c.clips_blend x y source) (c.size_blend x y source).1 (c.size_blend x y source).2
    fun i j => ?_).trans c.wash_id.symm
  simp [pixel?_blend, Rgba.blendOver_of_transparent h]

variable {c}

theorem IsAddressable.blend (h : c.IsAddressable) (x y : Int) :
    (c.blend x y source).IsAddressable := by
  obtain ⟨hwidth, hheight⟩ := c.size_blend x y source
  exact ⟨hwidth.trans_lt h.1, hheight.trans_lt h.2⟩

/-- A pixel that is too far away is not on the canvas, and neither is the one it wraps around to. -/
theorem IsAddressable.blend_wrapCoordinate (h : c.IsAddressable) {x y : Int}
    (hx : -2147483648 ≤ x ∧ x < 4294967296) (hy : -2147483648 ≤ y ∧ y < 4294967296) :
    c.blend (wrapCoordinate x) (wrapCoordinate y) source = c.blend x y source := by
  by_cases hfits : IsCoordinate x ∧ IsCoordinate y
  · rw [wrapCoordinate_eq hfits.1.1 hfits.1.2, wrapCoordinate_eq hfits.2.1 hfits.2.2]
  · obtain ⟨hwidth, hheight⟩ := h
    have hlarge : 2147483648 ≤ x ∨ 2147483648 ≤ y := by
      unfold IsCoordinate at hfits
      omega
    have hwrapped : wrapCoordinate x < 0 ∨ wrapCoordinate y < 0 :=
      hlarge.imp (wrapCoordinate_neg · hx.2) (wrapCoordinate_neg · hy.2)
    rw [c.blend_of_outside source (by omega), c.blend_of_outside source (by omega)]

end

/-! ## 3. Masks -/

/-- The sums for the pixel of a byte fit into 32 bits if they have no sign. -/
def MaskNear (left top : Int) (width i : Nat) : Prop :=
  left + (i % width : Nat) < 4294967296 ∧ top + (i / width : Nat) < 4294967296

/-- Mixes one byte of a mask over the pixel with its exact coordinates. -/
def blendByte (left top : Int) (width : Nat) (color : Color) (c : Canvas) (b : UInt8 × Nat) :
    Canvas :=
  c.blendPixel (left + (b.2 % width : Nat)) (top + (b.2 / width : Nat)) color
    (b.1.toFloat32 / 255)

/-- Mixes the bytes of a mask pixel by pixel. -/
def blendMask (c : Canvas) (left top : Int) (width : Nat) (coverage : List UInt8) (color : Color) :
    Canvas :=
  coverage.zipIdx.foldl (blendByte left top width color) c

section

variable {c : Canvas} {left top : Int} {width i : Nat} {coverage : List UInt8} {color : Color}

theorem maskNear_of_lt (hleft : IsCoordinate left) (htop : IsCoordinate top)
    (hcolumn : i % width < 2147483648) (hrow : i / width < 2147483648) :
    MaskNear left top width i := by
  have hright := hleft.2
  have hbottom := htop.2
  unfold MaskNear
  generalize i % width = column at hcolumn ⊢
  generalize i / width = row at hrow ⊢
  omega

theorem maskStep_eq_blendByte (hc : c.IsAddressable) (hleft : IsCoordinate left)
    (htop : IsCoordinate top) {b : UInt8} (h : b ≠ 0 → MaskNear left top width i) :
    c.maskStep left top width color.toRgba i b = blendByte left top width color c (b, i) := by
  rw [maskStep]
  split
  next hzero =>
    subst hzero
    exact (c.blend_of_transparent _ _ _ color.toRgba.alpha_faded_zero).symm
  next hb =>
    obtain ⟨hright, hbottom⟩ := h hb
    exact hc.blend_wrapCoordinate _
      ⟨le_add_of_le_of_nonneg hleft.1 (Int.natCast_nonneg _), hright⟩
      ⟨le_add_of_le_of_nonneg htop.1 (Int.natCast_nonneg _), hbottom⟩

theorem maskFrom_eq_foldl (hc : c.IsAddressable) (hleft : IsCoordinate left)
    (htop : IsCoordinate top)
    (h : ∀ k b, coverage[k]? = some b → b ≠ 0 → MaskNear left top width (i + k)) :
    c.maskFrom left top width color.toRgba i coverage =
      (coverage.zipIdx i).foldl (blendByte left top width color) c := by
  induction coverage generalizing c i with
  | nil => rfl
  | cons b rest ih =>
    have hrest (k : Nat) (b' : UInt8) (hb' : rest[k]? = some b') (hne : b' ≠ 0) :
        MaskNear left top width (i + 1 + k) := by
      rw [Nat.add_right_comm, Nat.add_assoc]
      exact h (k + 1) b' hb' hne
    have hfirst : b ≠ 0 → MaskNear left top width i := h 0 b rfl
    rw [maskFrom_cons, maskStep_eq_blendByte hc hleft htop hfirst, List.zipIdx_cons,
      List.foldl_cons]
    exact ih (hc.blend _ _ _) hrest

/-- Wrapping around is not seen. -/
theorem mask_eq_blendMask (hc : c.IsAddressable) (hleft : IsCoordinate left)
    (htop : IsCoordinate top) (hwidth : width ≠ 0)
    (h : ∀ i b, coverage[i]? = some b → b ≠ 0 → MaskNear left top width i) :
    c.mask left top width coverage color = c.blendMask left top width coverage color := by
  rw [mask, if_neg hwidth]
  exact maskFrom_eq_foldl hc hleft htop fun k b hb hne => by
    rw [Nat.zero_add]
    exact h k b hb hne

/-- What begins behind the right edge is not drawn. -/
theorem blendMask_of_width_le (h : (c.width : Int) ≤ left) :
    c.blendMask left top width coverage color = c :=
  List.foldl_fixed' (fun b => c.blend_of_outside _ (by omega)) _

/-- Bytes without coverage only count. -/
theorem maskFrom_replicate_zero (source : Rgba) (n : Nat) :
    c.maskFrom left top width source i (List.replicate n 0 ++ coverage) =
      c.maskFrom left top width source (i + n) coverage := by
  induction n generalizing i with
  | zero => rfl
  | succ n ih =>
    rw [List.replicate_succ, List.cons_append, maskFrom_cons, maskStep, if_pos rfl, ih,
      Nat.add_right_comm, Nat.add_assoc]

end

end Canvas

/-! ## 4. The masks of glyphs -/

namespace Font.Sheet

/-- The columns and rows of a sheet. -/
def extent (s : Sheet) : Nat × Nat := (s.width, s.height)

theorem extent_add (s : Sheet) (index : Int) (height mid : Float32) :
    (s.add index height mid).extent = s.extent := rfl

theorem extent_walkUpright (step : Int) (dy mid stop : Float32) (n : Nat) (s : Sheet)
    (index : Int) (y next : Float32) :
    (walkUpright step dy mid stop n s index y next).extent = s.extent := by
  induction n generalizing s index y next with
  | zero => exact s.extent_add _ _ _
  | succ n ih => exact (ih _ _ _ _).trans (s.extent_add _ _ _)

theorem extent_walkSlanted (slope : Slope) (stop : Point) (n : Nat) (s : Sheet) (w : Step) :
    (walkSlanted slope stop n s w).extent = s.extent := by
  induction n generalizing s w with
  | zero => exact s.extent_add _ _ _
  | succ n ih =>
    rw [walkSlanted]
    exact (ih _ _).trans (s.extent_add _ _ _)

theorem extent_foldl {draw : Sheet → Edge → Sheet} (h : ∀ s e, (draw s e).extent = s.extent)
    (edges : List Edge) (s : Sheet) : (edges.foldl draw s).extent = s.extent := by
  induction edges generalizing s with
  | nil => rfl
  | cons e rest ih => exact (ih _).trans (h s e)

/-- A sheet that is drawn on keeps its size. -/
theorem extent_draw (s : Sheet) (f : Fitting) (o : Outline) : (s.draw f o).extent = s.extent := by
  have hslanted (s : Sheet) (e : Edge) : (drawSlanted f s e).extent = s.extent :=
    extent_walkSlanted _ _ _ s _
  have hupright (s : Sheet) (e : Edge) : (drawUpright f s e).extent = s.extent :=
    extent_walkUpright _ _ _ _ _ s _ _ _
  exact (extent_foldl hslanted _ _).trans (extent_foldl hupright _ s)

theorem length_coverage_le (s : Sheet) : s.coverage.length ≤ s.extent.1 * s.extent.2 :=
  List.length_take_le _ _

end Font.Sheet

namespace GlyphImage

/-- The columns and rows of a glyph are coordinates, and its mask has no others. -/
structure HasMask (g : GlyphImage) : Prop where
  width_lt : g.width < 2147483648
  height_lt : g.height < 2147483648
  length_le : g.coverage.length ≤ g.width * g.height

theorem hasMask_render (f : Font) (c : Char) (size : Float32) : (f.render c size).HasMask := by
  have hside (x : Float32) : (Number.toInt32 x).toNat < 2147483648 := by
    have hx := (Canvas.isCoordinate_toInt32 x).2
    omega
  rw [Font.render]
  split
  · exact ⟨by decide, by decide, le_rfl⟩
  · refine ⟨hside _, hside _, (Font.Sheet.length_coverage_le _).trans_eq ?_⟩
    rw [Font.Sheet.extent_draw]
    rfl

variable {g : GlyphImage} {left top : Int}

theorem HasMask.maskNear (hg : g.HasMask) (hleft : Canvas.IsCoordinate left)
    (htop : Canvas.IsCoordinate top) {i : Nat} (hi : i < g.coverage.length) :
    Canvas.MaskNear left top g.width i := by
  have harea : i < g.width * g.height := hi.trans_le hg.length_le
  have hpos : 0 < g.width := Nat.pos_of_ne_zero fun hzero => by
    rw [hzero, Nat.zero_mul] at harea
    omega
  exact Canvas.maskNear_of_lt hleft htop ((Nat.mod_lt _ hpos).trans hg.width_lt)
    ((Nat.div_lt_of_lt_mul harea).trans hg.height_lt)

theorem HasMask.mask_eq_blendMask (hg : g.HasMask) {c : Canvas} (hc : c.IsAddressable)
    (hleft : Canvas.IsCoordinate left) (htop : Canvas.IsCoordinate top) (color : Color) :
    c.mask left top g.width g.coverage color = c.blendMask left top g.width g.coverage color := by
  by_cases hwidth : g.width = 0
  · have hempty : g.coverage = [] := by
      have hlength := hg.length_le
      rw [hwidth, Nat.zero_mul] at hlength
      exact List.eq_nil_of_length_eq_zero (Nat.le_zero.mp hlength)
    rw [hempty, Canvas.mask, if_pos hwidth]
    rfl
  · exact Canvas.mask_eq_blendMask hc hleft htop hwidth fun i b hb _ =>
      hg.maskNear hleft htop (List.getElem?_eq_some_iff.mp hb).1

end GlyphImage

/-! ## 5. Paintings -/

namespace Easel

/-- Draws glyphs one behind the other, each pixel by pixel. -/
def exactLetters (e : Easel) (font : Font) (size baseline : Float32) (color : Color) :
    (x : Float32) → List Char → Easel
  | _, [] => e
  | x, c :: rest =>
    let (g, glyphs) := GlyphCache.render font e.glyphs c size
    let left := Number.toInt32 (Number.round (x + Float32.ofInt g.left))
    let top := Number.toInt32
      (Number.round (baseline - Float32.ofNat g.height - Float32.ofInt g.bottom))
    let e : Easel := ⟨e.canvas.blendMask left top g.width g.coverage color, glyphs⟩
    e.exactLetters font size baseline color (x + g.advance) rest

/-- Draws a mark, with the pixels of glyphs at their exact coordinates. -/
def exactDraw (e : Easel) : Mark → Easel
  | .letters font text left top size color =>
    e.exactLetters font size (top + font.ascentAt size) color left text
  | m => e.draw m

/-- An easel whose pixels have coordinates, and the columns and rows of its glyphs too. -/
structure IsAddressable (e : Easel) : Prop where
  canvas : e.canvas.IsAddressable
  glyphs : ∀ k g, e.glyphs.lookup k = some g → g.HasMask

variable {e : Easel}

theorem IsAddressable.of_isWash (h : e.IsAddressable) {draw : Canvas → Canvas}
    (hdraw : Canvas.IsWash draw) : IsAddressable { e with canvas := draw e.canvas } := by
  obtain ⟨w, hw⟩ := hdraw
  refine ⟨?_, h.glyphs⟩
  dsimp only
  rw [hw]
  exact h.canvas

theorem IsAddressable.render (h : e.IsAddressable) (font : Font) (c : Char) (size : Float32) :
    (GlyphCache.render font e.glyphs c size).1.HasMask ∧
      IsAddressable { e with glyphs := (GlyphCache.render font e.glyphs c size).2 } := by
  rw [GlyphCache.render]
  split
  next image hfound => exact ⟨h.glyphs _ _ hfound, h⟩
  next =>
    have himage := GlyphImage.hasMask_render font c size
    refine ⟨himage, h.canvas, fun k g hg => ?_⟩
    rw [List.lookup_cons] at hg
    split at hg
    · cases hg
      exact himage
    · exact h.glyphs k g hg

/-- One line of text. -/
theorem IsAddressable.letters (h : e.IsAddressable) (font : Font) (size baseline : Float32)
    (color : Color) (x : Float32) (text : List Char) :
    e.letters font size baseline color x text = e.exactLetters font size baseline color x text ∧
      (e.letters font size baseline color x text).IsAddressable := by
  induction text generalizing e x with
  | nil => exact ⟨rfl, h⟩
  | cons c rest ih =>
    obtain ⟨hmask, hcached⟩ := h.render font c size
    rw [Easel.letters, exactLetters]
    rcases hrender : GlyphCache.render font e.glyphs c size with ⟨g, glyphs⟩
    rw [hrender] at hmask hcached
    dsimp only
    rw [← hmask.mask_eq_blendMask h.canvas (Canvas.isCoordinate_toInt32 _)
      (Canvas.isCoordinate_toInt32 _)]
    exact ih (hcached.of_isWash (Canvas.isWash_mask _ _ _ _ _)) _

/-- One mark. -/
theorem IsAddressable.draw (h : e.IsAddressable) (m : Mark) :
    e.draw m = e.exactDraw m ∧ (e.draw m).IsAddressable := by
  have hwash {draw : Canvas → Canvas} (hdraw : Canvas.IsWash draw)
      (heq : e.draw m = { e with canvas := draw e.canvas }) : (e.draw m).IsAddressable :=
    heq ▸ h.of_isWash hdraw
  cases m with
  | clip | unclip => exact ⟨rfl, h.canvas, h.glyphs⟩
  | fill r radius color => exact ⟨rfl, hwash (Canvas.isWash_fillRounded r radius color) rfl⟩
  | stroke r radius width color =>
    exact ⟨rfl, hwash (Canvas.isWash_strokeRounded r radius width color) rfl⟩
  | line a b width color => exact ⟨rfl, hwash (Canvas.isWash_line a b width color) rfl⟩
  | image picture dest => exact ⟨rfl, hwash (Canvas.isWash_image picture dest) rfl⟩
  | letters font text left top size color => exact h.letters font size _ color left text

theorem IsAddressable.foldl (h : e.IsAddressable) (marks : List Mark) :
    marks.foldl Easel.draw e = marks.foldl exactDraw e := by
  induction marks generalizing e with
  | nil => rfl
  | cons m rest ih =>
    obtain ⟨hexact, hdrawn⟩ := h.draw m
    rw [List.foldl_cons, List.foldl_cons, ih hdrawn, hexact]

end Easel

namespace Canvas

/-- Draws marks, with the pixels of glyphs at their exact coordinates. -/
def exactDraw (c : Canvas) (marks : List Mark) : Canvas :=
  (marks.foldl Easel.exactDraw ⟨c, []⟩).canvas

/-- The pixel of a byte is computed exactly as long as its coordinates are not too large.  Else it
wraps around, which does not show where 32 bits without a sign hold the sums, so it never shows in a
mask of at most 2 ^ 31 bytes or in what is painted of a card. -/
theorem masks_at_exact_places (c : Canvas) (hc : c.IsAddressable) :
    (∀ (left top : Int) (width : Nat) (coverage : List UInt8) (color : Color),
      IsCoordinate left → IsCoordinate top → width ≠ 0 →
      (∀ i : Nat,
        (wrapCoordinate (left + (i % width : Nat)) = left + (i % width : Nat) ∧
          wrapCoordinate (top + (i / width : Nat)) = top + (i / width : Nat)) ↔
        left + (i % width : Nat) < 2147483648 ∧ top + (i / width : Nat) < 2147483648) ∧
      ((∀ i b, coverage[i]? = some b → b ≠ 0 → MaskNear left top width i) →
        c.mask left top width coverage color = c.blendMask left top width coverage color) ∧
      (coverage.length ≤ 2147483648 →
        c.mask left top width coverage color = c.blendMask left top width coverage color)) ∧
    ∀ (card : Card) (p : PaintBox), card.paint p c = c.exactDraw (card.marks p) := by
  refine ⟨fun left top width coverage color hleft htop hwidth =>
    ⟨fun i => ?_, mask_eq_blendMask hc hleft htop hwidth, fun hlength => ?_⟩, fun card p => ?_⟩
  · have hcolumn := le_add_of_le_of_nonneg hleft.1 (Int.natCast_nonneg (i % width))
    have hrow := le_add_of_le_of_nonneg htop.1 (Int.natCast_nonneg (i / width))
    rw [wrapCoordinate_eq_iff, wrapCoordinate_eq_iff]
    exact and_congr (and_iff_right hcolumn) (and_iff_right hrow)
  · refine mask_eq_blendMask hc hleft htop hwidth fun i b hb _ => ?_
    have hi : i < 2147483648 := (List.getElem?_eq_some_iff.mp hb).1.trans_le hlength
    exact maskNear_of_lt hleft htop ((Nat.mod_le i width).trans_lt hi)
      ((Nat.div_le_self i width).trans_lt hi)
  · have heasel : Easel.IsAddressable ⟨c, []⟩ := ⟨hc, fun k g h => by cases h⟩
    exact congrArg Easel.canvas (heasel.foldl (card.marks p))

/-- What is painted far to the right has the largest coordinate.  A second column does not fit, and
is not drawn. -/
theorem masks_at_exact_places_far_right :
    let c := blank 1 1
    let left := Number.toInt32 (Number.round 3000000000)
    left = 2147483647 ∧ c.IsAddressable ∧ IsCoordinate left ∧ IsCoordinate 0 ∧
      ¬wrapCoordinate (left + (1 % 2 : Nat)) = left + (1 % 2 : Nat) ∧
      c.mask left 0 2 [0, 255] .black = c.blendMask left 0 2 [0, 255] .black := by
  intro c left
  have hleft : left = 2147483647 := by decide +kernel
  have hc : c.IsAddressable := ⟨by decide, by decide⟩
  rw [hleft]
  obtain ⟨hfits, -, hmask⟩ := (c.masks_at_exact_places hc).1 2147483647 0 2 [0, 255] .black
    ⟨by decide, by decide⟩ ⟨by decide, by decide⟩ (by decide)
  exact ⟨rfl, hc, ⟨by decide, by decide⟩, ⟨by decide, by decide⟩,
    fun h => absurd ((hfits 1).mp ⟨h, by decide⟩).1 (by decide), hmask (by decide)⟩

/-- Two columns at the largest coordinate do not fit.  A row that is wider than all coordinates
comes back to the first pixel of the picture. -/
theorem not_forall_exact_coordinates :
    (¬∀ (left top : Int) (width : Nat) (coverage : List UInt8) (i : Nat) (b : UInt8),
      IsCoordinate left → IsCoordinate top → width ≠ 0 → coverage[i]? = some b → b ≠ 0 →
      wrapCoordinate (left + (i % width : Nat)) = left + (i % width : Nat) ∧
        wrapCoordinate (top + (i / width : Nat)) = top + (i / width : Nat)) ∧
    ¬∀ (c : Canvas) (left top : Int) (width : Nat) (coverage : List UInt8) (color : Color),
      c.IsAddressable → IsCoordinate left → IsCoordinate top → width ≠ 0 →
      c.mask left top width coverage color = c.blendMask left top width coverage color := by
  refine ⟨fun h => ?_, fun h => ?_⟩
  · have hexact := h 2147483647 0 2 [0, 255] 1 255 ⟨by decide, by decide⟩ ⟨by decide, by decide⟩
      (by decide) rfl (by decide)
    exact absurd hexact.1 (by decide)
  · have hmask := h (blank 1 1) 2147483647 0 2147483650 (List.replicate 2147483649 0 ++ [255])
      .black ⟨by decide, by decide⟩ ⟨by decide, by decide⟩ ⟨by decide, by decide⟩ (by decide)
    rw [mask, if_neg (by decide), maskFrom_replicate_zero, Nat.zero_add,
      blendMask_of_width_le (by decide)] at hmask
    have hpixel := congrArg (fun c : Canvas => c.picture.pixel? 0 0) hmask
    exact absurd hpixel (by decide +kernel)

end Canvas

end ContentCard
