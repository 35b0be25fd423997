import ContentCard.Proofs.Canvas.Clips
import ContentCard.Proofs.Canvas.Pixelwise
import ContentCard.Proofs.Number.Integers

/-!
# Drawing inside a rectangle

A drawing that changes some pixels only is told by where these are.  A shape or an image changes
pixels of its span only, and an image of those only the ones that take a colour from it.  What is
drawn in the clip of a rectangle stays in the span of that rectangle, as long as the centres of
pixels are exact.
-/

namespace ContentCard

/-! ## 1. The pixels of an interval -/

namespace Number

/-- The centre of a pixel is exact in the first 23 bits. -/
theorem value_centre {n : ℕ} (hn : n < 2 ^ 23) :
    (Float32.ofNat n + 0.5).isFinite ∧ value (Float32.ofNat n + 0.5) = n + 1 / 2 := by
  have hn' : (n : ℚ) + 1 ≤ 2 ^ 23 := by exact_mod_cast hn
  have hn₀ : (0 : ℚ) ≤ n := Nat.cast_nonneg n
  have hsum := Rounds.add (isFinite_ofNat hn) (y := 0.5) rfl
  rw [value_ofNat hn, value_half] at hsum
  have hlt : |(n : ℚ) + 1 / 2| < 2 ^ (23 : ℤ) := by
    rw [abs_of_nonneg (by linarith), zpow_ofNat]
    linarith
  refine ⟨(hsum.near (by decide) (by decide) hlt).1, ?_⟩
  -- the centre is an odd number of halves
  refine hsum.eq_of_eq (by decide) (by decide) hlt (g := -1) (by decide) (j := 2 * n + 1) ?_
  push_cast
  rw [zpow_neg_one]
  ring

/-- An infinite end of an interval is that of all pixels. -/
theorem toInt32_ceil_of_infinite {x : Float32} (hx : x.toModel.unpack = .infinity .positive) :
    toInt32 (ceil x) = 2147483647 := by
  have hinfinite : x = 1 / 0 := ext_unpack (by rw [hx]; rfl)
  rw [hinfinite]
  decide +kernel

end Number

namespace Interval

/-- The interval reaches into the pixels with this column or row. -/
def Touches (i : Interval) (n : ℕ) : Prop :=
  Number.toInt32 (Number.floor i.start) ≤ n ∧ (n : ℤ) < Number.toInt32 (Number.ceil i.stop)

/-- An interval reaches into the pixels whose centre it holds. -/
theorem IsFinite.touches {i : Interval} (hi : i.IsFinite) {n : ℕ} (hn : n < 2 ^ 23)
    (h : i.Admits (Float32.ofNat n + 0.5)) : i.Touches n := by
  obtain ⟨hstart, hstop⟩ := h
  obtain ⟨hfinite, hcentre⟩ := Number.value_centre hn
  have hn' : (n : ℤ) < 2 ^ 23 := by exact_mod_cast hn
  constructor
  · rw [Number.lt_iff_value_lt hfinite hi.1, hcentre, not_lt] at hstart
    have hfloor : ⌊Number.value i.start⌋ ≤ n := by
      rw [← Int.lt_add_one_iff, Int.floor_lt]
      push_cast
      linarith
    rw [Number.toInt32_floor hi.1]
    omega
  · have hsum : Number.Rounds (Number.value i.start + Number.value i.length) i.stop :=
      .add hi.1 hi.2
    -- the end is computed, and may have become infinite
    cases hsum with
    | finite hsum =>
      rw [Number.le_iff_value_le hsum hfinite, hcentre, not_le] at hstop
      have hceil : (n : ℤ) < ⌈Number.value i.stop⌉ := by
        rw [Int.lt_ceil]
        push_cast
        linarith
      rw [Number.toInt32_ceil hsum]
      omega
    | above _ hsum =>
      rw [Number.toInt32_ceil_of_infinite hsum]
      omega
    | below _ hsum =>
      exact absurd (Number.le_of_infinite_negative hsum (Number.isNaN_of_isFinite hfinite)) hstop

end Interval

namespace Rect

theorem IsFinite.holds_span {r : Rect} (hr : r.IsFinite) {x y : ℕ} (hx : x < 2 ^ 23)
    (hy : y < 2 ^ 23) (h : r.admits (pixelCentre x y)) : (Canvas.Span.of r).Holds x y := by
  obtain ⟨hacross, hdown⟩ := across_and_down_admit h
  exact ⟨hr.1.touches hx hacross, hr.2.touches hy hdown⟩

end Rect

/-! ## 2. Drawings that change some pixels only -/

namespace Canvas

/-- The second canvas differs from the first in the given pixels only. -/
structure ChangesOnly (inside : ℕ → ℕ → Prop) (c d : Canvas) : Prop where
  clips : d.clips = c.clips
  width : d.picture.width = c.picture.width
  height : d.picture.height = c.picture.height
  pixel? : ∀ x y, ¬inside x y → d.picture.pixel? x y = c.picture.pixel? x y

namespace ChangesOnly

variable {inside inside' : ℕ → ℕ → Prop} {c d e : Canvas}

theorem trans (h : ChangesOnly inside c d) (h' : ChangesOnly inside d e) :
    ChangesOnly inside c e where
  clips := h'.clips.trans h.clips
  width := h'.width.trans h.width
  height := h'.height.trans h.height
  pixel? x y hout := (h'.pixel? x y hout).trans (h.pixel? x y hout)

/-- Only the pixels on the canvas count. -/
theorem mono (h : ChangesOnly inside c d)
    (hsub : ∀ x y, x < c.picture.width → y < c.picture.height → inside x y → inside' x y) :
    ChangesOnly inside' c d where
  clips := h.clips
  width := h.width
  height := h.height
  pixel? x y hout := by
    by_cases hin : x < c.picture.width ∧ y < c.picture.height
    · exact h.pixel? x y fun hinside => hout (hsub x y hin.1 hin.2 hinside)
    · -- neither picture has the pixel
      rw [Picture.pixel?_eq_none hin,
        Picture.pixel?_eq_none (by rwa [h.width, h.height])]

end ChangesOnly

theorem MixesOnce.pixel?_eq {c d : Canvas} {span : Span} {source : ℕ → ℕ → Rgba}
    (h : c.MixesOnce d span source) {x y : ℕ} (hout : ¬(span.Holds x y ∧ (source x y).a ≠ 0)) :
    d.picture.pixel? x y = c.picture.pixel? x y := by
  have hnot : ¬(span.Holds x y ∧ c.admits x y ∧ (source x y).a ≠ 0) := fun ⟨hin, _, ha⟩ =>
    hout ⟨hin, ha⟩
  rw [h x y]
  simp only [hnot, if_false, Option.map_id']

variable (c : Canvas)

theorem changesOnly_of_isWash {draw : Canvas → Canvas} (h : IsWash draw) {inside : ℕ → ℕ → Prop}
    (hpixel : ∀ x y, ¬inside x y → (draw c).picture.pixel? x y = c.picture.pixel? x y) :
    ChangesOnly inside c (draw c) := by
  obtain ⟨w, hw⟩ := h
  refine ⟨?_, ?_, ?_, hpixel⟩ <;> rw [hw] <;> rfl

theorem changesOnly_fillRounded (r : Rect) (radius : Float32) (color : Color) :
    ChangesOnly (Span.of r).Holds c (c.fillRounded r radius color) := by
  refine c.changesOnly_of_isWash (isWash_fillRounded r radius color) fun x y hout => ?_
  by_cases harea : r.HasArea
  · exact (c.mixesOnce_fillRounded r radius color harea).pixel?_eq fun h => hout h.1
  · rw [c.fillRounded_of_not_hasArea r radius color harea]

/-- An image changes pixels that have one of its own to take. -/
theorem changesOnly_image (picture : Picture) (dest : Rect) :
    ChangesOnly (fun x y => dest.HasArea ∧ (nearest? picture dest x y).isSome) c
      (c.image picture dest) := by
  refine c.changesOnly_of_isWash (isWash_image picture dest) fun x y hout => ?_
  by_cases harea : dest.HasArea
  · refine (c.mixesOnce_image picture dest harea).pixel?_eq fun h => hout ⟨harea, ?_⟩
    by_contra hnone
    apply h.2
    rw [imageSource, Option.not_isSome_iff_eq_none.mp hnone]
    rfl
  · rw [c.image_of_not_hasArea picture dest harea]

/-- What is drawn in the clip of a rectangle stays in its span. -/
theorem changesOnly_clipped {draw : Canvas → Canvas} (h : IsWash draw) {r : Rect}
    (hr : r.IsFinite) (hclips : c.clips = []) (hwidth : c.picture.width ≤ 2 ^ 23)
    (hheight : c.picture.height ≤ 2 ^ 23) :
    ChangesOnly (Span.of r).Holds c (draw (c.pushClip r)).popClip := by
  obtain ⟨w, hw⟩ := h
  have hpush : c.pushClip r = { c with clips := [r] } := by
    rw [pushClip_eq, hclips]
    rfl
  have hdrawn : ChangesOnly (fun x y => r.admits (pixelCentre x y)) c
      (draw (c.pushClip r)).popClip := by
    rw [hw, hpush]
    refine ⟨hclips.symm, rfl, rfl, fun x y hout => ?_⟩
    show (wash { c with clips := [r] } w).picture.pixel? x y = _
    have hadmits : ({ c with clips := [r] } : Canvas).admits x y = false :=
      Bool.eq_false_of_not_eq_true hout
    rw [pixel?_wash]
    simp only [hadmits, Bool.false_eq_true, if_false, Option.map_id']
  exact hdrawn.mono fun x y hx hy hadmits =>
    hr.holds_span (hx.trans_le hwidth) (hy.trans_le hheight) hadmits

end Canvas

end ContentCard
