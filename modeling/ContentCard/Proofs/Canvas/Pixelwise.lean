import ContentCard.Proofs.Canvas.Wash
import ContentCard.Proofs.Color.Coverage
import ContentCard.Proofs.Color.Mixing

/-!
# Every pixel once

A shape, a line or an image mixes one source over each pixel of its span that the clip admits, and
does so once; the byte of a mask is mixed once over its own pixel.  No other pixel changes.  Shapes
and images without area, and frames without width, show nothing at all.
-/

namespace ContentCard

namespace Canvas

/-! ## 1. Spans -/

/-- All pixels of the canvas have coordinates, which are numbers of 32 bits with a sign, and so do
its far edges. -/
def IsAddressable (c : Canvas) : Prop := c.width < 2147483648 ∧ c.height < 2147483648

/-- Each pixel of a span that the clip admits is mixed once with the source of its place, where that
is not transparent; every other pixel stays. -/
def MixesOnce (c d : Canvas) (span : Span) (source : Nat → Nat → Rgba) : Prop :=
  ∀ x y, d.picture.pixel? x y = (c.picture.pixel? x y).map fun old =>
    if span.Holds x y ∧ c.admits x y ∧ (source x y).a ≠ 0 then (source x y).blendOver old else old

variable (c : Canvas)

theorem mixesOnce_shade (span : Span) (source : Nat → Nat → Rgba) :
    c.MixesOnce (c.shade span source) span source := by
  intro x y
  rw [pixel?_shade]
  congr 1
  funext old
  -- mixing a transparent source leaves the pixel, as if it had been passed over
  by_cases h : (source x y).a = 0
  · simp [h, Rgba.blendOver_of_transparent h]
  · simp [h]

theorem mixesOnce_self (span : Span) {source : Nat → Nat → Rgba} (h : ∀ x y, (source x y).a = 0) :
    c.MixesOnce c span source := by
  intro x y
  simp [h x y]

end Canvas

/-- Both sides are more than nothing, or undefined. -/
def Rect.HasArea (r : Rect) : Prop := ¬r.width ≤ 0 ∧ ¬r.height ≤ 0

theorem Canvas.isVisible_eq {r : Rect} (h : r.HasArea) (color : Color) :
    isVisible r color = !color.isTransparent := by
  unfold isVisible
  rw [decide_eq_false h.1, decide_eq_false h.2, Bool.false_or, Bool.false_or]

namespace Canvas

theorem isVisible_of_not_hasArea {r : Rect} (h : ¬r.HasArea) (color : Color) :
    isVisible r color = false := by
  unfold isVisible
  by_cases hwidth : r.width ≤ 0
  · rw [decide_eq_true hwidth]
    rfl
  · have hheight : r.height ≤ 0 := by
      by_contra hheight
      exact h ⟨hwidth, hheight⟩
    rw [decide_eq_true hheight, Bool.or_true]
    rfl

/-! ## 2. Shapes -/

section

variable (c : Canvas) (r : Rect) (radius width : Float32) (color : Color)

def fillSource (x y : Nat) : Rgba :=
  color.toRgba.faded (roundedCoverage r radius (pixelCentre x y))

/-- The hole of a frame takes away from the coverage of its outline. -/
def strokeSource (x y : Nat) : Rgba :=
  color.toRgba.faded
    (roundedCoverage r radius (pixelCentre x y) - holeCoverage r radius width (pixelCentre x y))

theorem mixesOnce_fillRounded (h : r.HasArea) :
    c.MixesOnce (c.fillRounded r radius color) (.of r) (fillSource r radius color) := by
  rw [fillRounded, isVisible_eq h]
  -- a transparent colour is not drawn at all, and no coverage would make it show
  by_cases hcolor : color.isTransparent
  · rw [hcolor]
    exact c.mixesOnce_self _ fun x y =>
      Rgba.alpha_faded_of_transparent (Color.alpha_toRgba_of_isTransparent hcolor) _
  · rw [Bool.eq_false_of_not_eq_true hcolor]
    exact c.mixesOnce_shade _ _

theorem fillRounded_of_not_hasArea (h : ¬r.HasArea) : c.fillRounded r radius color = c := by
  rw [fillRounded, isVisible_of_not_hasArea h]
  rfl

theorem mixesOnce_strokeRounded (h : r.HasArea) (hwidth : ¬width ≤ 0) :
    c.MixesOnce (c.strokeRounded r radius width color) (.of r)
      (strokeSource r radius width color) := by
  rw [strokeRounded, isVisible_eq h, decide_eq_false hwidth]
  by_cases hcolor : color.isTransparent
  · rw [hcolor]
    exact c.mixesOnce_self _ fun x y =>
      Rgba.alpha_faded_of_transparent (Color.alpha_toRgba_of_isTransparent hcolor) _
  · rw [Bool.eq_false_of_not_eq_true hcolor]
    exact c.mixesOnce_shade _ _

theorem strokeRounded_of_not_hasArea (h : ¬r.HasArea ∨ width ≤ 0) :
    c.strokeRounded r radius width color = c := by
  rw [strokeRounded]
  rcases h with h | h
  · rw [isVisible_of_not_hasArea h]
    rfl
  · rw [decide_eq_true h, Bool.not_true, Bool.and_false]
    rfl

end

/-! ## 3. Lines -/

section

variable (c : Canvas) (a b : Point) (width : Float32) (color : Color)

/-- The rectangle around a line with its caps. -/
def lineBounds : Rect :=
  let half := Number.max width 1 / 2
  { x := Number.min a.x b.x - half
    y := Number.min a.y b.y - half
    width := Float32.abs (a.x - b.x) + half * 2
    height := Float32.abs (a.y - b.y) + half * 2 }

def lineSource (x y : Nat) : Rgba :=
  color.toRgba.faded (Number.clamp 0 1
    (Number.max width 1 / 2 + 0.5 - segmentDistance a b (pixelCentre x y)))

theorem mixesOnce_line :
    c.MixesOnce (c.line a b width color) (.of (lineBounds a b width))
      (lineSource a b width color) := c.mixesOnce_shade _ _

end

/-! ## 4. Images -/

section

variable (c : Canvas) (picture : Picture) (dest : Rect)

/-- The pixel of a stretched image that covers the centre of a pixel. -/
def nearest? (x y : Nat) : Option Rgba := do
  let i ← sample? (pixelCentre x y).x dest.x (Float32.ofNat picture.width / dest.width)
    picture.width
  let j ← sample? (pixelCentre x y).y dest.y (Float32.ofNat picture.height / dest.height)
    picture.height
  picture.pixel? i j

/-- A pixel of the image covers all of the one it is drawn on. -/
def imageSource (x y : Nat) : Rgba :=
  ((nearest? picture dest x y).map fun pixel => (Color.ofRgba pixel).toRgba.faded 1).getD
    ⟨0, 0, 0, 0⟩

theorem mixesOnce_image (h : dest.HasArea) :
    c.MixesOnce (c.image picture dest) (.of dest) (imageSource picture dest) := by
  have hdraw : (dest.width ≤ 0 ∨ dest.height ≤ 0 ∨ picture.width = 0 ∨ picture.height = 0) ↔
      picture.width = 0 ∨ picture.height = 0 := by
    simp [h.1, h.2]
  rw [image, if_congr hdraw rfl rfl]
  split
  next hempty =>
    -- without pixels an image has none to show
    refine c.mixesOnce_self _ fun x y => ?_
    have hnone : nearest? picture dest x y = none := by
      unfold nearest?
      cases sample? _ _ _ picture.width with
      | none => rfl
      | some i =>
        cases sample? _ _ _ picture.height with
        | none => rfl
        | some j => exact Picture.pixel?_eq_none (by omega)
    rw [imageSource, hnone]
    rfl
  next =>
    convert c.mixesOnce_shade (.of dest) (imageSource picture dest) using 2
    funext x y
    unfold imageSource nearest?
    dsimp only
    cases sample? _ _ _ picture.width with
    | none => rfl
    | some i =>
      cases sample? _ _ _ picture.height with
      | none => rfl
      | some j =>
        show (picture.pixel? i j).getD _ = ((picture.pixel? i j).map _).getD _
        cases picture.pixel? i j with
        | none => rfl
        | some pixel => exact pixel.faded_one_toRgba_ofRgba.symm

theorem image_of_not_hasArea (h : ¬dest.HasArea) : c.image picture dest = c := by
  apply if_pos
  by_contra hdraw
  exact h ⟨fun hwidth => hdraw (.inl hwidth), fun hheight => hdraw (.inr (.inl hheight))⟩

end

/-! ## 5. Masks -/

variable {left top : Int} {width i j x y : Nat}

/-- The byte with the given index of a mask belongs to the pixel. -/
def MaskPlace (left top : Int) (width i x y : Nat) : Prop :=
  (x : Int) = left + (i % width : Nat) ∧ (y : Int) = top + (i / width : Nat)

instance : Decidable (MaskPlace left top width i x y) := inferInstanceAs (Decidable (_ ∧ _))

/-- The coordinates of the pixel of a byte are 32 bits wide. -/
def MaskFits (left top : Int) (width i : Nat) : Prop :=
  (-2147483648 ≤ left + (i % width : Nat) ∧ left + (i % width : Nat) < 2147483648) ∧
    -2147483648 ≤ top + (i / width : Nat) ∧ top + (i / width : Nat) < 2147483648

theorem wrapCoordinate_eq {n : Int} (hlow : -2147483648 ≤ n) (hhigh : n < 2147483648) :
    wrapCoordinate n = n := Int.bmod_eq_of_le hlow hhigh

theorem IsAddressable.wrapCoordinate_sides {c : Canvas} (h : c.IsAddressable) :
    wrapCoordinate c.width = c.width ∧ wrapCoordinate c.height = c.height := by
  obtain ⟨hwidth, hheight⟩ := h
  exact ⟨wrapCoordinate_eq (by omega) (by omega), wrapCoordinate_eq (by omega) (by omega)⟩

/-- No two bytes of a mask belong to one pixel. -/
theorem MaskPlace.unique (hi : MaskPlace left top width i x y)
    (hj : MaskPlace left top width j x y) : i = j := by
  unfold MaskPlace at hi hj
  have hmod : i % width = j % width := by omega
  have hdiv : i / width = j / width := by omega
  rw [← Nat.div_add_mod i width, ← Nat.div_add_mod j width, hmod, hdiv]

/-- What a byte of a mask mixes over its pixel. -/
def maskSource (source : Rgba) (b : UInt8) : Rgba := source.faded (b.toFloat32 / 255)

/-- Draws one byte of a mask. -/
def maskStep (c : Canvas) (left top : Int) (width : Nat) (source : Rgba) (i : Nat) (b : UInt8) :
    Canvas :=
  if b = 0 then c
  else
    c.blend (wrapCoordinate (left + (i % width : Nat))) (wrapCoordinate (top + (i / width : Nat)))
      (maskSource source b)

theorem maskFrom_cons (c : Canvas) (left top : Int) (width : Nat) (source : Rgba) (i : Nat)
    (b : UInt8) (rest : List UInt8) :
    c.maskFrom left top width source i (b :: rest) =
      (c.maskStep left top width source i b).maskFrom left top width source (i + 1) rest := rfl

variable (c : Canvas) (source : Rgba)

theorem admits_maskStep (b : UInt8) :
    (c.maskStep left top width source i b).admits x y = c.admits x y := by
  have hclips : (c.maskStep left top width source i b).clips = c.clips := by
    rw [maskStep]
    split
    · rfl
    · exact c.clips_blend _ _ _
  unfold admits
  rw [hclips]

theorem pixel?_maskStep {b : UInt8} (hfits : b ≠ 0 → MaskFits left top width i) (x y : Nat) :
    (c.maskStep left top width source i b).picture.pixel? x y =
      (c.picture.pixel? x y).map fun old =>
        if MaskPlace left top width i x y ∧ c.admits x y then (maskSource source b).blendOver old
        else old := by
  rw [maskStep]
  split
  next h =>
    have htransparent : (maskSource source b).a = 0 := by
      rw [h]
      exact source.alpha_faded_zero
    simp [Rgba.blendOver_of_transparent htransparent]
  next h =>
    obtain ⟨⟨hleft, hright⟩, htop, hbottom⟩ := hfits h
    rw [pixel?_blend, wrapCoordinate_eq hleft hright, wrapCoordinate_eq htop hbottom]
    rfl

/-- From one byte of a mask on, each byte changes its own pixel and no other one. -/
theorem pixel?_maskFrom (coverage : List UInt8)
    (hfits : ∀ k b, coverage[k]? = some b → b ≠ 0 → MaskFits left top width (i + k)) (x y : Nat) :
    (∀ k b, coverage[k]? = some b → MaskPlace left top width (i + k) x y →
      (c.maskFrom left top width source i coverage).picture.pixel? x y =
        (c.picture.pixel? x y).map fun old =>
          if c.admits x y then (maskSource source b).blendOver old else old) ∧
    ((∀ k < coverage.length, ¬MaskPlace left top width (i + k) x y) →
      (c.maskFrom left top width source i coverage).picture.pixel? x y =
        c.picture.pixel? x y) := by
  -- along the bytes, each of which is drawn on what the ones before it have left
  induction coverage generalizing c i with
  | nil => exact ⟨fun k b hb _ => by simp at hb, fun _ => rfl⟩
  | cons b rest ih =>
    have hnext (k : Nat) : i + 1 + k = i + (k + 1) := by omega
    obtain ⟨hhit, hmiss⟩ := ih (c.maskStep left top width source i b) (i := i + 1)
      fun k b' hb' => by rw [hnext]; exact hfits (k + 1) b' hb'
    have hstep := c.pixel?_maskStep (i := i) source (hfits 0 b rfl) x y
    simp only [hnext, admits_maskStep, hstep] at hhit hmiss
    rw [maskFrom_cons]
    by_cases hplace : MaskPlace left top width i x y
    · -- the pixel is that of the first byte, and no other byte comes back to it
      have hrest (k : Nat) : ¬MaskPlace left top width (i + (k + 1)) x y := fun h => by
        have hk := hplace.unique h
        omega
      constructor
      · intro k b' hb' hk
        obtain rfl : k = 0 := by
          have hik := hplace.unique hk
          omega
        obtain rfl : b = b' := Option.some.inj hb'
        rw [hmiss fun k _ => hrest k]
        simp [hplace]
      · intro hnone
        exact absurd hplace (hnone 0 (Nat.zero_lt_succ _))
    · simp only [hplace, false_and, if_false, Option.map_id_fun', id] at hhit hmiss
      constructor
      · intro k b' hb' hk
        cases k with
        | zero => exact absurd hk hplace
        | succ k => exact hhit k b' hb' hk
      · intro hnone
        exact hmiss fun k hk => hnone (k + 1) (Nat.succ_lt_succ hk)

/-! ## 6. All of them -/

/-- The sides of the canvas are what coordinates are compared with.  Fills, frames, lines and images
mix one source over each pixel of their span that the clip admits, and change no other pixel;
without area, and a frame also without width, they show nothing.  A byte of a mask is mixed once
over its own pixel, and pixels without a byte stay. -/
theorem draws_each_pixel_once (c : Canvas) (hc : c.IsAddressable) :
    (wrapCoordinate c.width = c.width ∧ wrapCoordinate c.height = c.height) ∧
    (∀ (r : Rect) (radius : Float32) (color : Color),
      (r.HasArea →
        c.MixesOnce (c.fillRounded r radius color) (.of r) (fillSource r radius color)) ∧
      (¬r.HasArea → c.fillRounded r radius color = c)) ∧
    (∀ (r : Rect) (radius width : Float32) (color : Color),
      (r.HasArea ∧ ¬width ≤ 0 →
        c.MixesOnce (c.strokeRounded r radius width color) (.of r)
          (strokeSource r radius width color)) ∧
      (¬r.HasArea ∨ width ≤ 0 → c.strokeRounded r radius width color = c)) ∧
    (∀ (a b : Point) (width : Float32) (color : Color),
      c.MixesOnce (c.line a b width color) (.of (lineBounds a b width))
        (lineSource a b width color)) ∧
    (∀ (picture : Picture) (dest : Rect),
      (dest.HasArea →
        c.MixesOnce (c.image picture dest) (.of dest) (imageSource picture dest)) ∧
      (¬dest.HasArea → c.image picture dest = c)) ∧
    ∀ (left top : Int) (width : Nat) (coverage : List UInt8) (color : Color), width ≠ 0 →
      (∀ i b, coverage[i]? = some b → b ≠ 0 → MaskFits left top width i) → ∀ x y,
      (∀ i b, coverage[i]? = some b → MaskPlace left top width i x y →
        (c.mask left top width coverage color).picture.pixel? x y =
          (c.picture.pixel? x y).map fun old =>
            if c.admits x y then (maskSource color.toRgba b).blendOver old else old) ∧
      ((∀ i < coverage.length, ¬MaskPlace left top width i x y) →
        (c.mask left top width coverage color).picture.pixel? x y = c.picture.pixel? x y) := by
  refine ⟨hc.wrapCoordinate_sides,
    fun r radius color => ⟨c.mixesOnce_fillRounded r radius color,
      c.fillRounded_of_not_hasArea r radius color⟩,
    fun r radius width color => ⟨fun h => c.mixesOnce_strokeRounded r radius width color h.1 h.2,
      c.strokeRounded_of_not_hasArea r radius width color⟩,
    fun a b width color => c.mixesOnce_line a b width color,
    fun picture dest => ⟨c.mixesOnce_image picture dest, c.image_of_not_hasArea picture dest⟩,
    fun left top width coverage color hwidth hfits x y => ?_⟩
  have hmask : c.mask left top width coverage color =
      c.maskFrom left top width color.toRgba 0 coverage := if_neg hwidth
  have hbytes := c.pixel?_maskFrom (i := 0) color.toRgba coverage
    (fun k b hb h => by rw [Nat.zero_add]; exact hfits k b hb h) x y
  simp only [Nat.zero_add] at hbytes
  rw [hmask]
  exact hbytes

/-- A square, its frame, an image and a mask of one byte, on a canvas with a clip. -/
theorem marks_draw_each_pixel_once :
    let c := (blank 2 2).pushClip ⟨0, 0, 1, 2⟩
    let square : Rect := ⟨0, 0, 2, 2⟩
    let image : Picture := .filled 1 1 ⟨255, 0, 0, 128⟩
    c.IsAddressable ∧ square.HasArea ∧ (⟨0.5, 0, 0, 1⟩ : Rect).HasArea = False ∧
      ¬(1 : Float32) ≤ 0 ∧
      MaskFits 0 1 1 0 ∧
      c.MixesOnce (c.fillRounded square 1 .black) (.of square) (fillSource square 1 .black) ∧
      c.fillRounded ⟨0.5, 0, 0, 1⟩ 0 .black = c ∧
      c.MixesOnce (c.strokeRounded square 1 1 .black) (.of square)
        (strokeSource square 1 1 .black) ∧
      c.MixesOnce (c.image image square) (.of square) (imageSource image square) ∧
      (c.mask 0 1 1 [128] .black).picture.pixel? 0 1 = some ⟨0, 0, 0, 128⟩ := by
  intro c square image
  have hc : c.IsAddressable := ⟨by decide, by decide⟩
  obtain ⟨-, hfill, hstroke, -, himage, hmask⟩ := c.draws_each_pixel_once hc
  have hsquare : square.HasArea := by
    unfold Rect.HasArea
    decide +kernel
  have hempty : ¬(⟨0.5, 0, 0, 1⟩ : Rect).HasArea := by
    unfold Rect.HasArea
    decide +kernel
  have hone : ¬(1 : Float32) ≤ 0 := by decide +kernel
  have hfits : MaskFits 0 1 1 0 := by
    unfold MaskFits
    decide
  refine ⟨hc, hsquare, eq_false hempty, hone, hfits, (hfill _ _ _).1 hsquare,
    (hfill _ _ _).2 hempty, (hstroke _ _ _ _).1 ⟨hsquare, hone⟩, (himage _ _).1 hsquare, ?_⟩
  have hbyte : ∀ i b, [(128 : UInt8)][i]? = some b → b ≠ 0 → MaskFits 0 1 1 i := fun i b hb _ => by
    cases i with
    | zero => exact hfits
    | succ i => simp at hb
  rw [(hmask 0 1 1 [128] .black (by decide) hbyte 0 1).1 0 128 rfl ⟨rfl, rfl⟩]
  decide +kernel

/-- An empty shape, a frame of negative width, and an image that begins behind the centre of its
first pixel show nothing, though by the distance to the outline and by the nearest pixel they would:
half a pixel lies on the empty shape, and far from zero the hole is rounded off its frame. -/
theorem not_forall_mixesOnce :
    (¬∀ (c : Canvas) (r : Rect) (radius : Float32) (color : Color),
      c.MixesOnce (c.fillRounded r radius color) (.of r) (fillSource r radius color)) ∧
    (¬∀ (c : Canvas) (r : Rect) (radius width : Float32) (color : Color),
      c.MixesOnce (c.strokeRounded r radius width color) (.of r)
        (strokeSource r radius width color)) ∧
    ¬∀ (c : Canvas) (color : Rgba) (dest : Rect), dest.HasArea →
      c.MixesOnce (c.image (.filled 1 1 color) dest) (.of dest) fun _ _ => color := by
  refine ⟨fun h => ?_, fun h => ?_, fun h => ?_⟩
  · exact absurd (h (blank 1 1) ⟨0.5, 0, 0, 1⟩ 0 .black 0 0) (by decide +kernel)
  · exact absurd (h (blank 1 1) ⟨-8527528, 0, 8527529, 1⟩ 0 (-0.75) .black 0 0)
      (by decide +kernel)
  · have harea : (⟨0.7, 0, 1, 1⟩ : Rect).HasArea := by
      unfold Rect.HasArea
      decide +kernel
    exact absurd (h (blank 1 1) ⟨255, 0, 0, 255⟩ ⟨0.7, 0, 1, 1⟩ harea 0 0) (by decide +kernel)

end Canvas

end ContentCard
