import ContentCard.Color.Blend
import Mathlib.Tactic.Common

/-!
# Mixing in bytes

The colour of a mixture is a weighted mean of two channels, rounded down.  Its weights are the
alphas that both colours bring, and together they are 255 at most.  So every number that is computed
fits into a byte, no channel leaves the range between the two it comes from, and no mixture is more
transparent than one of its colours.
-/

namespace ContentCard.Rgba

/-! ## 1. Alphas -/

theorem keptAlpha_le (source dest : Rgba) : keptAlpha source dest ≤ 255 - source.a.toNat := by
  have hd := dest.a.toNat_lt
  apply Nat.div_le_of_le_mul
  apply Nat.mul_le_mul_right
  omega

theorem mixAlpha_le (source dest : Rgba) : mixAlpha source dest ≤ 255 := by
  have hs := source.a.toNat_lt
  have hkept := keptAlpha_le source dest
  unfold mixAlpha
  omega

/-- The source brings at least what the rounded share of the destination loses. -/
theorem le_mixAlpha (source dest : Rgba) : dest.a.toNat ≤ mixAlpha source dest := by
  have hd := dest.a.toNat_lt
  have hloss : dest.a.toNat * source.a.toNat ≤ 255 * source.a.toNat :=
    Nat.mul_le_mul_right _ (by omega)
  -- the destination loses no more than the source's alpha
  have hkept : dest.a.toNat - source.a.toNat ≤ keptAlpha source dest := by
    rw [keptAlpha, Nat.le_div_iff_mul_le (by decide), Nat.mul_sub, Nat.sub_mul]
    omega
  unfold mixAlpha
  omega

theorem mixAlpha_pos {source : Rgba} (h : source.a ≠ 0) (dest : Rgba) :
    0 < mixAlpha source dest := by
  have hs : source.a.toNat ≠ 0 := fun hz => h (UInt8.toNat_inj.mp hz)
  unfold mixAlpha
  omega

theorem alpha_le_max (c : Rgba) : c.a ≤ 255 :=
  UInt8.le_iff_toNat_le.mpr (Nat.le_of_lt_succ c.a.toNat_lt)

/-! ## 2. Channels -/

/-- The weighted sum of two bytes is at most that of the largest byte. -/
theorem channelSum_le (source dest : Rgba) (s d : UInt8) :
    s.toNat * source.a.toNat + d.toNat * keptAlpha source dest ≤ 255 * 255 := by
  have hs := s.toNat_lt
  have hd := d.toNat_lt
  have hmix := mixAlpha_le source dest
  unfold mixAlpha at hmix
  have hleft : s.toNat * source.a.toNat ≤ 255 * source.a.toNat :=
    Nat.mul_le_mul_right _ (by omega)
  have hright : d.toNat * keptAlpha source dest ≤ 255 * keptAlpha source dest :=
    Nat.mul_le_mul_right _ (by omega)
  omega

/-- A mean that is rounded down does not fall below the smaller number, which is whole. -/
theorem mixChannel_between {source : Rgba} (h : source.a ≠ 0) (dest : Rgba) (s d : UInt8) :
    min s.toNat d.toNat ≤ mixChannel source dest s d ∧
      mixChannel source dest s d ≤ max s.toNat d.toNat := by
  have hpos := mixAlpha_pos h dest
  unfold mixChannel
  unfold mixAlpha at *
  constructor
  · rw [Nat.le_div_iff_mul_le hpos, Nat.mul_add]
    exact Nat.add_le_add (Nat.mul_le_mul_right _ (Nat.min_le_left _ _))
      (Nat.mul_le_mul_right _ (Nat.min_le_right _ _))
  · apply Nat.div_le_of_le_mul
    rw [Nat.add_mul, Nat.mul_comm source.a.toNat, Nat.mul_comm (keptAlpha source dest)]
    exact Nat.add_le_add (Nat.mul_le_mul_right _ (Nat.le_max_left _ _))
      (Nat.mul_le_mul_right _ (Nat.le_max_right _ _))

theorem mixChannel_le {source : Rgba} (h : source.a ≠ 0) (dest : Rgba) (s d : UInt8) :
    mixChannel source dest s d ≤ 255 := by
  have hs := s.toNat_lt
  have hd := d.toNat_lt
  have hbetween := (mixChannel_between h dest s d).2
  omega

/-! ## 3. Mixtures -/

/-- The bytes of a colour are the numbers that mixing computes. -/
structure IsMixture (source dest mixed : Rgba) : Prop where
  r : mixed.r.toNat = mixChannel source dest source.r dest.r
  g : mixed.g.toNat = mixChannel source dest source.g dest.g
  b : mixed.b.toNat = mixChannel source dest source.b dest.b
  a : mixed.a.toNat = mixAlpha source dest

/-- The channels of a colour lie between those of two others. -/
structure IsBetween (source dest mixed : Rgba) : Prop where
  r : min source.r.toNat dest.r.toNat ≤ mixed.r.toNat ∧
    mixed.r.toNat ≤ max source.r.toNat dest.r.toNat
  g : min source.g.toNat dest.g.toNat ≤ mixed.g.toNat ∧
    mixed.g.toNat ≤ max source.g.toNat dest.g.toNat
  b : min source.b.toNat dest.b.toNat ≤ mixed.b.toNat ∧
    mixed.b.toNat ≤ max source.b.toNat dest.b.toNat

/-- An opaque source leaves nothing of the destination. -/
theorem mixChannel_of_full {source : Rgba} (h : source.a = 255) (dest : Rgba) (s d : UInt8) :
    mixChannel source dest s d = s.toNat := by
  have ha : source.a.toNat = 255 := by rw [h]; rfl
  have hkept : keptAlpha source dest = 0 := by
    have hle := keptAlpha_le source dest
    omega
  unfold mixChannel mixAlpha
  rw [hkept, ha, Nat.mul_zero, Nat.add_zero, Nat.add_zero]
  exact Nat.mul_div_cancel _ (by decide)

/-- Whatever is mixed over a colour, no byte is cut off. -/
theorem isMixture_blendOver {source : Rgba} (h : source.a ≠ 0) (dest : Rgba) :
    IsMixture source dest (source.blendOver dest) := by
  have hpos := mixAlpha_pos h dest
  have halpha := mixAlpha_le source dest
  unfold blendOver
  rw [if_neg h]
  split
  next hfull =>
    -- the source is taken as it is, and that is what the formula gives
    have ha : source.a.toNat = 255 := by rw [hfull]; rfl
    have hle : source.a.toNat ≤ mixAlpha source dest := Nat.le_add_right _ _
    refine ⟨?_, ?_, ?_, by omega⟩ <;> exact (mixChannel_of_full hfull dest _ _).symm
  next =>
    rw [if_neg (Nat.ne_of_gt hpos)]
    refine ⟨?_, ?_, ?_, ?_⟩
    · exact UInt8.toNat_ofNat_of_lt' (Nat.lt_succ_of_le (mixChannel_le h dest _ _))
    · exact UInt8.toNat_ofNat_of_lt' (Nat.lt_succ_of_le (mixChannel_le h dest _ _))
    · exact UInt8.toNat_ofNat_of_lt' (Nat.lt_succ_of_le (mixChannel_le h dest _ _))
    · exact UInt8.toNat_ofNat_of_lt' (Nat.lt_succ_of_le halpha)

theorem blendOver_of_transparent {source : Rgba} (h : source.a = 0) (dest : Rgba) :
    source.blendOver dest = dest := if_pos h

theorem isBetween_blendOver (source dest : Rgba) :
    IsBetween source dest (source.blendOver dest) := by
  by_cases h : source.a = 0
  · rw [blendOver_of_transparent h]
    refine ⟨?_, ?_, ?_⟩ <;> omega
  · have hmixed := isMixture_blendOver h dest
    refine ⟨?_, ?_, ?_⟩
    · rw [hmixed.r]
      exact mixChannel_between h dest _ _
    · rw [hmixed.g]
      exact mixChannel_between h dest _ _
    · rw [hmixed.b]
      exact mixChannel_between h dest _ _

theorem max_alpha_le_blendOver (source dest : Rgba) :
    max source.a.toNat dest.a.toNat ≤ (source.blendOver dest).a.toNat := by
  by_cases h : source.a = 0
  · rw [blendOver_of_transparent h, h]
    exact Nat.max_le.mpr ⟨Nat.zero_le _, Nat.le_refl _⟩
  · rw [(isMixture_blendOver h dest).a]
    exact Nat.max_le.mpr ⟨Nat.le_add_right _ _, le_mixAlpha source dest⟩

theorem alpha_le_blendOver (source dest : Rgba) : dest.a ≤ (source.blendOver dest).a :=
  UInt8.le_iff_toNat_le.mpr
    (Nat.le_trans (Nat.le_max_right _ _) (max_alpha_le_blendOver source dest))

theorem opaque_blendOver {dest : Rgba} (h : dest.a = 255) (source : Rgba) :
    (source.blendOver dest).a = 255 := by
  apply UInt8.le_antisymm (alpha_le_max _)
  rw [← h]
  exact alpha_le_blendOver source dest

/-- Mixing divides by an alpha that is not zero, and all of its numbers fit: the weighted sums into
16 bits, their means and the alpha into the bytes of the result.  The alpha of the result is at
least that of either colour, so that an opaque destination stays opaque, and its channels lie
between those of the two. -/
theorem blendOver_well_behaved (source dest : Rgba) :
    (source.a = 0 → source.blendOver dest = dest) ∧
    (source.a ≠ 0 →
      0 < mixAlpha source dest ∧ IsMixture source dest (source.blendOver dest)) ∧
    (∀ s d : UInt8,
      s.toNat * source.a.toNat + d.toNat * keptAlpha source dest ≤ 255 * 255) ∧
    (max source.a.toNat dest.a.toNat ≤ (source.blendOver dest).a.toNat ∧
      mixAlpha source dest ≤ 255) ∧
    IsBetween source dest (source.blendOver dest) ∧
    (dest.a = 255 → (source.blendOver dest).a = 255) := by
  refine ⟨fun h => blendOver_of_transparent h dest, fun h => ?_, channelSum_le source dest, ?_,
    isBetween_blendOver source dest, fun h => opaque_blendOver h source⟩
  · exact ⟨mixAlpha_pos h dest, isMixture_blendOver h dest⟩
  · exact ⟨max_alpha_le_blendOver source dest, mixAlpha_le source dest⟩

/-- A half transparent red over an opaque blue. -/
theorem halfRed_blendOver_blue :
    let red : Rgba := ⟨255, 0, 0, 128⟩
    let blue : Rgba := ⟨0, 0, 255, 255⟩
    red.a ≠ 0 ∧ blue.a = 255 ∧ red.blendOver blue = ⟨128, 0, 127, 255⟩ ∧
      0 < mixAlpha red blue ∧ IsMixture red blue (red.blendOver blue) ∧
      (red.blendOver blue).a = 255 := by
  intro red blue
  have hred : red.a ≠ 0 := by decide
  have hblue : blue.a = 255 := rfl
  have hmixed := blendOver_well_behaved red blue
  exact ⟨hred, hblue, by decide, (hmixed.2.1 hred).1, (hmixed.2.1 hred).2,
    hmixed.2.2.2.2.2 hblue⟩

end ContentCard.Rgba
