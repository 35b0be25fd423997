import ContentCard.Canvas
import ContentCard.Proofs.Number.Scaling

/-!
# What a coverage leaves of a colour

A source that is transparent stays so, whatever its coverage; a coverage of zero leaves nothing of
any source, and a full one leaves it as it is.  The way of a byte through a number between 0 and 1
and back changes none of the 256 bytes.
-/

namespace ContentCard

open Float.Model (UnpackedFloat)

/-! ## 1. Zeros -/

namespace Number

variable {x : Float32}

theorem eq_zero_or_neg_zero {s : Float.Model.UnpackedFloat.Sign}
    (h : x.toModel.unpack = .zero s) : x = 0 ∨ x = -0 := by
  cases s with
  | positive => exact .inl (ext_unpack h)
  | negative => exact .inr (ext_unpack h)

/-- A number that is neither above nor below zero is a zero. -/
theorem eq_zero_of_le_of_not_lt (hle : x ≤ 0) (hlt : ¬x < 0) : x = 0 ∨ x = -0 := by
  obtain ⟨i, hi, j, hj, hij⟩ := le_iff.mp hle
  have hrank : rank x = rank 0 := by
    rw [hi, hj]
    exact congrArg some (le_antisymm hij (not_lt.mp fun h => hlt (lt_iff.mpr ⟨i, hi, j, hj, h⟩)))
  -- only the two zeros have this rank
  change unpackedRank x.toModel.unpack = some (toLex (0, toLex (0, 0))) at hrank
  cases hx : x.toModel.unpack with
  | zero s => exact eq_zero_or_neg_zero hx
  | notANumber => rw [hx] at hrank; cases hrank
  | infinity s | finite s => rw [hx] at hrank; cases s <;> cases hrank

/-- Zero times any number has no whole part. -/
theorem toByte_round_zero_mul (x : Float32) : toByte (round (0 * x)) = 0 := by
  have hmul : (0 * x).toModel.unpack = (Float32.Model.pack (UnpackedFloat.mul .binary32
    (.zero .positive) x.toModel.unpack)).unpack := rfl
  -- the product is no number or a zero of either sign, and none of them makes a byte
  cases hx : x.toModel.unpack with
  | notANumber | infinity =>
    have hnan : 0 * x = 0 / 0 := ext_unpack (by rw [hmul, hx]; rfl)
    rw [hnan]
    decide +kernel
  | zero s | finite s =>
    rw [hx] at hmul
    have hzero : (Float32.Model.pack (.zero (.positive * s))).unpack = .zero (.positive * s) := by
      cases s <;> rfl
    rcases eq_zero_or_neg_zero (hmul.trans hzero) with h | h
    · rw [h]
      decide +kernel
    · rw [h]
      decide +kernel

theorem mul_comm (x y : Float32) : x * y = y * x := by
  have hsign (s s' : Float.Model.UnpackedFloat.Sign) : s * s' = s' * s := by
    cases s <;> cases s' <;> rfl
  have hunpacked (u v : UnpackedFloat) :
      UnpackedFloat.mul .binary32 u v = UnpackedFloat.mul .binary32 v u := by
    cases u <;> cases v <;> try rfl
    case infinity.infinity | infinity.finite | finite.infinity =>
      exact congrArg UnpackedFloat.infinity (hsign _ _)
    case zero.zero | zero.finite | finite.zero => exact congrArg UnpackedFloat.zero (hsign _ _)
    case finite.finite => rw [mul_finite, mul_finite, hsign, Nat.mul_comm, Int.add_comm]
  exact congrArg (fun u => Float32.ofModel (.pack u)) (hunpacked _ _)

end Number

/-! ## 2. Colours -/

theorem Color.alpha_toRgba_of_isTransparent {color : Color} (h : color.isTransparent) :
    color.toRgba.a = 0 := by
  have hle : color.a ≤ 0 := of_decide_eq_true h
  show quantize color.a = 0
  rw [quantize, Number.clamp]
  split
  · decide +kernel
  next hlt =>
    rcases Number.eq_zero_of_le_of_not_lt hle hlt with h | h
    · rw [h]
      decide +kernel
    · rw [h]
      decide +kernel

namespace Rgba

theorem alpha_faded_of_transparent {source : Rgba} (h : source.a = 0) (coverage : Float32) :
    (source.faded coverage).a = 0 := by
  show Number.toByte (Number.round (source.a.toFloat32 * _)) = 0
  rw [h]
  exact Number.toByte_round_zero_mul _

/-- There are 256 bytes to look at. -/
theorem forall_byte {p : UInt8 → Prop} (h : ∀ n : Fin 256, p (UInt8.ofNat n)) (b : UInt8) :
    p b := by
  have hb := h ⟨b.toNat, b.toNat_lt⟩
  rwa [UInt8.ofNat_toNat] at hb

theorem alpha_faded_zero (source : Rgba) : (source.faded ((0 : UInt8).toFloat32 / 255)).a = 0 := by
  have hcoverage : Number.min ((0 : UInt8).toFloat32 / 255) 1 = 0 := rfl
  show Number.toByte (Number.round (source.a.toFloat32 * _)) = 0
  rw [hcoverage, Number.mul_comm]
  exact Number.toByte_round_zero_mul _

/-- A full coverage of a colour that stands in bytes. -/
theorem faded_one_toRgba_ofRgba (source : Rgba) :
    (Color.ofRgba source).toRgba.faded 1 = source := by
  have hquantize : ∀ b : UInt8, Color.quantize (Color.component b) = b :=
    forall_byte (by decide +kernel)
  have hround : ∀ b : UInt8,
      Number.toByte (Number.round (b.toFloat32 * Number.min 1 1)) = b :=
    forall_byte (by decide +kernel)
  obtain ⟨r, g, b, a⟩ := source
  simp only [Color.ofRgba, Color.toRgba, faded, hquantize, hround]

end Rgba

end ContentCard
