import ContentCard.Picture
import Mathlib.Tactic.Common

/-!
# Pictures, pixel by pixel

A picture is settled by its size and by what it shows at each place (`Picture.ext_pixel?`).  Here is
what the changes of a picture do at one place.
-/

namespace ContentCard.Picture

/-! ## 1. Places -/

/-- The number of a pixel, counted along the rows. -/
def place (width x y : Nat) : Nat := y * width + x

section

variable {width x y : Nat} (h : x < width)

include h

theorem place_mod : place width x y % width = x := by
  rw [place, Nat.mul_add_mod_self_right, Nat.mod_eq_of_lt h]

theorem place_div : place width x y / width = y := by
  rw [place, Nat.add_comm, Nat.add_mul_div_right _ _ (Nat.zero_lt_of_lt h), Nat.div_eq_of_lt h,
    Nat.zero_add]

theorem place_lt_iff {height : Nat} : place width x y < width * height ↔ y < height := by
  rw [Nat.mul_comm, ← Nat.div_lt_iff_lt_mul (Nat.zero_lt_of_lt h), place_div h]

theorem place_eq_iff {i j : Nat} (hi : i < width) :
    place width x y = place width i j ↔ x = i ∧ y = j := by
  constructor
  · intro he
    exact ⟨by rw [← place_mod h (y := y), he, place_mod hi],
      by rw [← place_div h (y := y), he, place_div hi]⟩
  · rintro ⟨rfl, rfl⟩
    rfl

end

theorem pixel?_eq_getElem? {p : Picture} {x y : Nat} (h : x < p.width) :
    p.pixel? x y = p.pixels[place p.width x y]? := if_pos h

theorem isSome_pixel?_iff {p : Picture} {x y : Nat} :
    (p.pixel? x y).isSome ↔ x < p.width ∧ y < p.height := by
  by_cases h : x < p.width
  · rw [pixel?_eq_getElem? h, isSome_getElem?, p.size_pixels, place_lt_iff h]
    exact ⟨fun hy => ⟨h, hy⟩, And.right⟩
  · simp [pixel?, h]

theorem pixel?_eq_none {p : Picture} {x y : Nat} (h : ¬(x < p.width ∧ y < p.height)) :
    p.pixel? x y = none :=
  Option.not_isSome_iff_eq_none.mp (mt isSome_pixel?_iff.mp h)

/-- Pictures of one size that show the same everywhere are equal. -/
theorem ext_pixel? {p q : Picture} (hw : p.width = q.width) (hh : p.height = q.height)
    (h : ∀ x y, p.pixel? x y = q.pixel? x y) : p = q := by
  obtain ⟨width, height, pixels, hp⟩ := p
  obtain ⟨_, _, pixels', hq⟩ := q
  cases hw
  cases hh
  suffices pixels = pixels' by subst this; rfl
  refine Array.ext (hp.trans hq.symm) fun i hi hi' => ?_
  -- every number below the size is the number of a place
  have hw : 0 < width := by
    by_contra hw
    rw [hp, Nat.eq_zero_of_not_pos hw, Nat.zero_mul] at hi
    omega
  have hx : i % width < width := Nat.mod_lt _ hw
  have hi₂ : place width (i % width) (i / width) = i := by rw [place, Nat.div_add_mod']
  have he := h (i % width) (i / width)
  rw [pixel?_eq_getElem? hx, pixel?_eq_getElem? hx] at he
  simpa [hi₂, hi, hi'] using he

/-! ## 2. Changes -/

theorem pixel?_filled (width height : Nat) (color : Rgba) (x y : Nat) :
    (filled width height color).pixel? x y =
      if x < width ∧ y < height then some color else none := by
  by_cases h : x < width
  · rw [pixel?_eq_getElem? h]
    simp only [filled, Array.getElem?_replicate, place_lt_iff h, h, true_and]
  · simp [pixel?, filled, h]

theorem pixel?_modify (p : Picture) (x y : Nat) (f : Rgba → Rgba) (i j : Nat) :
    (p.modify x y f).pixel? i j =
      if i = x ∧ j = y then (p.pixel? i j).map f else p.pixel? i j := by
  by_cases hi : i < p.width
  · by_cases hx : x < p.width
    · have hm : (p.modify x y f).pixels = p.pixels.modify (place p.width x y) f := by
        simp only [modify, hx, if_true, place]
      rw [pixel?_eq_getElem? (by rwa [width_modify]), pixel?_eq_getElem? hi, width_modify, hm,
        Array.getElem?_modify]
      refine if_congr ?_ rfl rfl
      rw [place_eq_iff hx hi, eq_comm, @eq_comm _ y]
    · rw [modify, if_neg hx, if_neg (by rintro ⟨rfl, -⟩; exact hx hi)]
  · simp [pixel?, hi]

theorem size_modifyRow (p : Picture) (n x y : Nat) (f : Nat → Nat → Rgba → Rgba) :
    (n.fold (fun i _ p => p.modify (x + i) y (f (x + i) y)) p).width = p.width ∧
      (n.fold (fun i _ p => p.modify (x + i) y (f (x + i) y)) p).height = p.height := by
  induction n with
  | zero => exact ⟨rfl, rfl⟩
  | succ n ih => simpa [Nat.fold_succ] using ih

/-- The pixels of a row, changed from the left to the right. -/
theorem pixel?_modifyRow (p : Picture) (n x y : Nat) (f : Nat → Nat → Rgba → Rgba) (i j : Nat) :
    (n.fold (fun i _ p => p.modify (x + i) y (f (x + i) y)) p).pixel? i j =
      if (x ≤ i ∧ i < x + n) ∧ j = y then (p.pixel? i j).map (f i j) else p.pixel? i j := by
  induction n with
  | zero => rw [Nat.fold_zero, if_neg (by omega)]
  | succ n ih =>
    rw [Nat.fold_succ, pixel?_modify, ih]
    -- the last pixel is changed by the last step and by no other one
    by_cases hlast : i = x + n ∧ j = y
    · obtain ⟨rfl, rfl⟩ := hlast
      rw [if_pos ⟨rfl, rfl⟩, if_neg (by omega), if_pos (by omega)]
    · rw [if_neg hlast]
      exact if_congr (by omega) rfl rfl

theorem size_modifyBlock (p : Picture) (x y width height : Nat) (f : Nat → Nat → Rgba → Rgba) :
    (p.modifyBlock x y width height f).width = p.width ∧
      (p.modifyBlock x y width height f).height = p.height := by
  rw [modifyBlock]
  induction height with
  | zero => exact ⟨rfl, rfl⟩
  | succ n ih =>
    rw [Nat.fold_succ]
    have hrow := size_modifyRow (n.fold (fun j _ p =>
      width.fold (fun i _ p => p.modify (x + i) (y + j) (f (x + i) (y + j))) p) p) width x (y + n) f
    exact ⟨hrow.1.trans ih.1, hrow.2.trans ih.2⟩

theorem pixel?_modifyBlock (p : Picture) (x y width height : Nat) (f : Nat → Nat → Rgba → Rgba)
    (i j : Nat) :
    (p.modifyBlock x y width height f).pixel? i j =
      if (x ≤ i ∧ i < x + width) ∧ (y ≤ j ∧ j < y + height) then (p.pixel? i j).map (f i j)
      else p.pixel? i j := by
  rw [modifyBlock]
  induction height with
  | zero => rw [Nat.fold_zero, if_neg (by omega)]
  | succ n ih =>
    rw [Nat.fold_succ, pixel?_modifyRow, ih]
    by_cases hlast : (x ≤ i ∧ i < x + width) ∧ j = y + n
    · rw [if_pos hlast, if_neg (by omega), if_pos (by omega)]
    · rw [if_neg hlast]
      exact if_congr (by omega) rfl rfl

/-! ## 3. All pixels at once -/

/-- Changes every pixel by its column and row. -/
def mapPixels (p : Picture) (f : Nat → Nat → Rgba → Rgba) : Picture where
  width := p.width
  height := p.height
  pixels := p.pixels.mapIdx fun i => f (i % p.width) (i / p.width)
  size_pixels := by rw [Array.size_mapIdx, p.size_pixels]

@[simp] theorem width_mapPixels (p : Picture) (f : Nat → Nat → Rgba → Rgba) :
    (p.mapPixels f).width = p.width := rfl

@[simp] theorem height_mapPixels (p : Picture) (f : Nat → Nat → Rgba → Rgba) :
    (p.mapPixels f).height = p.height := rfl

@[simp] theorem pixel?_mapPixels (p : Picture) (f : Nat → Nat → Rgba → Rgba) (x y : Nat) :
    (p.mapPixels f).pixel? x y = (p.pixel? x y).map (f x y) := by
  by_cases h : x < p.width
  · rw [pixel?_eq_getElem? h, pixel?_eq_getElem? (by exact h)]
    simp only [mapPixels, Array.getElem?_mapIdx, place_mod h, place_div h]
  · simp [pixel?, h]

/-- The top left part of a picture, as far as the picture reaches. -/
def crop (p : Picture) (width height : Nat) : Picture where
  width := min width p.width
  height := min height p.height
  pixels := Array.ofFn (n := min width p.width * min height p.height) fun i =>
    (p.pixel? (i % min width p.width) (i / min width p.width)).getD ⟨0, 0, 0, 0⟩
  size_pixels := Array.size_ofFn

@[simp] theorem width_crop (p : Picture) (width height : Nat) :
    (p.crop width height).width = min width p.width := rfl

@[simp] theorem height_crop (p : Picture) (width height : Nat) :
    (p.crop width height).height = min height p.height := rfl

@[simp] theorem pixel?_crop (p : Picture) (width height x y : Nat) :
    (p.crop width height).pixel? x y = if x < width ∧ y < height then p.pixel? x y else none := by
  by_cases hc : x < min width p.width ∧ y < min height p.height
  · have hp : (p.pixel? x y).isSome := isSome_pixel?_iff.mpr (by omega)
    rw [if_pos (by omega), pixel?_eq_getElem? hc.1]
    obtain ⟨color, hcolor⟩ := Option.isSome_iff_exists.mp hp
    simp only [crop, Array.getElem?_ofFn, place_mod hc.1, place_div hc.1, place_lt_iff hc.1, hc.2,
      dite_true, hcolor, Option.getD_some]
  · rw [pixel?_eq_none (by exact hc)]
    split
    · rw [pixel?_eq_none (by omega)]
    · rfl

end ContentCard.Picture
