import ContentCard.Picture.Fit
import ContentCard.Proofs.Canvas.Inside

/-!
# Images that are fitted into a box

A fitted image may come out a fraction of a pixel larger than its box, and its place is rounded as
well.  For boxes of moderate numbers all of this stays below half a pixel.  So the pixels around the
box have their centres outside of the image, and take no colour from it.
-/

namespace ContentCard

open Float.Model (UnpackedFloat)
open Number

/-! ## 1. Samples -/

namespace Number

variable {x y : Float32}

theorem floor_of_not_isFinite (h : x.isFinite = false) : floor x = x := by
  unfold floor roundedBy
  rw [h]
  rfl

/-- A product with an infinite number has the sign of the other one. -/
theorem unpack_mul_infinite (hy : y.toModel.unpack = .infinity .positive) :
    (0 < value x → (x * y).toModel.unpack = .infinity .positive) ∧
      (value x < 0 → (x * y).toModel.unpack = .infinity .negative) := by
  have hmul : (x * y).toModel.unpack = (Float32.Model.pack
      (UnpackedFloat.mul .binary32 x.toModel.unpack (.infinity .positive))).unpack := by
    rw [← hy]
    rfl
  rw [hmul, value]
  cases x.toModel.unpack with
  | notANumber | infinity | zero =>
    exact ⟨fun h => absurd h (lt_irrefl 0), fun h => absurd h (lt_irrefl 0)⟩
  | finite s m e hm =>
    have hpos : (0 : ℚ) < m * 2 ^ e := mul_pos (by exact_mod_cast hm) (two_zpow_pos e)
    have hinfinite : UnpackedFloat.mul .binary32 (.finite s m e hm) (.infinity .positive) =
        .infinity (s * .positive) := rfl
    rw [unpackedValue_finite, hinfinite]
    cases s with
    | positive => exact ⟨fun _ => rfl, fun h => absurd h (not_lt.mpr (by exact_mod_cast hpos.le))⟩
    | negative =>
      refine ⟨fun h => ?_, fun _ => rfl⟩
      simp only [UnpackedFloat.Sign.apply] at h
      push_cast at h
      linarith

/-- A count is a whole number, though it may not be the same one. -/
theorem exists_value_ofNat {n : ℕ} (hpos : 0 < n) (hn : n < 2 ^ 32) :
    (Float32.ofNat n).isFinite ∧
      ∃ k : ℕ, 1 ≤ k ∧ k ≤ 2 ^ 32 ∧ value (Float32.ofNat n) = k := by
  have hpos' : (1 : ℚ) ≤ n := by exact_mod_cast hpos
  have hn' : (n : ℚ) < 2 ^ (32 : ℤ) := by exact_mod_cast hn
  have hlt : |(n : ℚ)| < 2 ^ (32 : ℤ) := by rwa [abs_of_nonneg (by linarith)]
  obtain ⟨hfinite, t, hgrid, ht⟩ :=
    (rounds_ofNat n).exists_exponent_le (p := 32) (by decide) (by decide) hlt
  have hwhole : ∃ k : ℤ, value (Float32.ofNat n) = k := by
    by_cases hsmall : t ≤ 0
    · exact ⟨n, ht.eq_of_eq hsmall (j := n) (by simp)⟩
    · obtain ⟨r, hr⟩ := ht.onGrid
      refine ⟨r * 2 ^ t.toNat, ?_⟩
      have hcast : t = t.toNat := by omega
      rw [hr, hcast, zpow_natCast, ← hcast]
      push_cast
      rfl
  obtain ⟨k, hk⟩ := hwhole
  have hnear := (abs_le.mp ht.abs_sub_le_relative).1
  have hhigh := ht.le_of_le (g := 32) (by omega) (j := 1)
    (by rw [Int.cast_one, one_mul]; exact hn'.le)
  rw [abs_of_nonneg (by linarith), hk] at hnear
  rw [hk, Int.cast_one, one_mul] at hhigh
  have hk₀ : (0 : ℚ) < k := by
    have : (1 : ℚ) / 2 ^ 150 < 1 / 2 := by norm_num
    linarith
  have hk₁ : 0 < k := by exact_mod_cast hk₀
  have hk₂ : k ≤ 2 ^ 32 := by exact_mod_cast hhigh
  refine ⟨hfinite, k.toNat, by omega, by omega, ?_⟩
  rw [hk, ← Int.cast_natCast, Int.toNat_of_nonneg hk₁.le]

/-- What is before the start of an image is scaled to a number below zero. -/
theorem floor_mul_lt_zero {a k : Float32} (ha : a.isFinite) (hneg : value a ≤ -1 / 8)
    (hk : k.isFinite ∧ 1 / 2 ^ 22 ≤ value k ∨ k.toModel.unpack = .infinity .positive) :
    floor (a * k) < 0 := by
  have hbelow (h : (a * k).toModel.unpack = .infinity .negative) : floor (a * k) < 0 := by
    have hinfinite : a * k = -1 / 0 := ext_unpack (by rw [h]; rfl)
    rw [hinfinite]
    decide +kernel
  obtain ⟨hfinite, hk⟩ | hk := hk
  · have hproduct : value a * value k ≤ -1 / 2 ^ 25 := by
      have hk₀ : 0 ≤ value k := by
        have : (0 : ℚ) < 1 / 2 ^ 22 := by norm_num
        linarith
      have hstep := mul_le_mul_of_nonneg_right hneg hk₀
      linarith
    cases Rounds.mul ha hfinite with
    | finite hfinite' t ht =>
      -- so far below zero the error of the product is smaller than the product
      have hnear := (abs_le.mp ht.abs_sub_le_relative).2
      rw [abs_of_nonpos (hproduct.trans (by norm_num))] at hnear
      have hvalue : value (a * k) < 0 := by
        have : (1 : ℚ) / 2 ^ 150 < 1 / 2 ^ 26 := by norm_num
        linarith
      rw [lt_iff_value_lt (value_floor hfinite').1 rfl, (value_floor hfinite').2, value_zero]
      exact_mod_cast Int.floor_lt_zero.mpr hvalue
    | above h =>
      have : (0 : ℚ) < 2 ^ 127 := by positivity
      linarith
    | below _ h => exact hbelow h
  · exact hbelow ((unpack_mul_infinite hk).2 (by linarith))

/-- What is behind the end of an image is scaled past all of its pixels. -/
theorem ofNat_le_floor_mul {n : ℕ} (hpos : 0 < n) (hn : n < 2 ^ 32) {a k : Float32}
    (ha : a.isFinite) (ha₀ : 0 < value a)
    (hk : k.isFinite ∧ value (Float32.ofNat n) ≤ value a * value k ∨
      k.toModel.unpack = .infinity .positive) :
    Float32.ofNat n ≤ floor (a * k) := by
  obtain ⟨hcount, c, hc, -, hvalue⟩ := exists_value_ofNat hpos hn
  have habove (h : (a * k).toModel.unpack = .infinity .positive) :
      Float32.ofNat n ≤ floor (a * k) := by
    rw [floor_of_not_isFinite (by show (a * k).toModel.unpack.isFinite = false; rw [h]; rfl)]
    exact le_of_infinite_positive h (isNaN_of_isFinite hcount)
  obtain ⟨hfinite, hk⟩ | hk := hk
  · cases Rounds.mul ha hfinite with
    | finite hfinite' t ht =>
      -- the count is a rounding of itself, and rounding keeps the order
      obtain ⟨g, hg⟩ := (isRounded_unpack hcount).isRounding
      have hle : value (Float32.ofNat n) ≤ value (a * k) := by
        obtain hlt | heq := hk.lt_or_eq
        · exact hg.le_of_lt ht (by rw [hvalue]; exact Nat.cast_nonneg c) hlt
        · rw [← heq] at ht
          exact (ht.eq_of_isRounding_self hg).ge
      rw [le_iff_value_le hcount (value_floor hfinite').1, (value_floor hfinite').2, hvalue]
      rw [hvalue] at hle
      exact_mod_cast Int.le_floor.mpr (by exact_mod_cast hle)
    | above _ h => exact habove h
    | below h =>
      have hle : (0 : ℚ) ≤ c := Nat.cast_nonneg c
      have : (0 : ℚ) < 2 ^ 127 := by positivity
      rw [hvalue] at hk
      linarith
  · exact habove ((unpack_mul_infinite hk).1 ha₀)

end Number

/-! ## 2. Centred intervals -/

namespace Interval

/-- The numbers are a million at most. -/
structure IsModerate (i : Interval) : Prop where
  isFinite : i.IsFinite
  start_le : |value i.start| ≤ 2 ^ 20
  length_le : |value i.length| ≤ 2 ^ 20

/-- An interval of the given length around the middle. -/
def centered (i : Interval) (length : Float32) : Interval :=
  ⟨i.start + (i.length - length) / 2, length⟩

section

variable {i : Interval} (hi : i.IsModerate)

include hi

theorem IsModerate.stop_near :
    i.stop.isFinite ∧ |value i.stop - (value i.start + value i.length)| ≤ 1 / 8 := by
  obtain ⟨⟨hstart, hlength⟩, hstart', hlength'⟩ := hi
  have hsum : |value i.start + value i.length| < 2 ^ (22 : ℤ) := by
    have := abs_add_le (value i.start) (value i.length)
    norm_num at *
    linarith
  have hnear := (Rounds.add hstart hlength).near (by decide) (by decide) hsum
  norm_num at hnear
  exact ⟨hnear.1, by norm_num; exact hnear.2⟩

variable {w : Float32} (hw : w.isFinite) (hpos : 0 < value w)
  (hle : value w ≤ value i.length + 9 / 64)

include hw hpos hle

theorem IsModerate.centered_near :
    (i.centered w).start.isFinite ∧ |value (i.centered w).start| ≤ 2 ^ 21 ∧
      |value (i.centered w).start - (value i.start + (value i.length - value w) / 2)| ≤ 7 / 64 := by
  obtain ⟨⟨hstart, hlength⟩, hstart', hlength'⟩ := hi
  have htwo : value 2 = 2 := value_ofNat (n := 2) (by decide)
  rw [abs_le] at hstart' hlength'
  -- the difference, its half and the sum are rounded one after the other
  have hdifference : |value i.length - value w| < 2 ^ (20 : ℤ) := by
    rw [abs_lt]
    norm_num at *
    constructor <;> linarith
  obtain ⟨hfinite, hnear⟩ :=
    (Rounds.sub hlength hw).near (by decide) (by decide) hdifference
  rw [abs_lt] at hdifference
  rw [abs_le] at hnear
  have hhalf : |value (i.length - w) / value 2| < 2 ^ (20 : ℤ) := by
    rw [htwo, abs_lt]
    norm_num at *
    constructor <;> linarith
  obtain ⟨hfinite', hnear'⟩ := (Rounds.div hfinite (y := 2) rfl (by rw [htwo]; norm_num)).near
    (by decide) (by decide) hhalf
  rw [htwo, abs_le] at hnear'
  have hsum : |value i.start + value ((i.length - w) / 2)| < 2 ^ (21 : ℤ) := by
    rw [abs_lt]
    norm_num at *
    constructor <;> linarith
  obtain ⟨hfinite'', hnear''⟩ := (Rounds.add hstart hfinite').near (by decide) (by decide) hsum
  rw [abs_lt] at hsum
  rw [abs_le] at hnear''
  have hcentred : (i.centered w).start = i.start + (i.length - w) / 2 := rfl
  rw [hcentred, abs_le, abs_le]
  norm_num at *
  refine ⟨hfinite'', ⟨?_, ?_⟩, ?_, ?_⟩ <;> linarith

/-- The centre of a pixel before the interval is before the start. -/
theorem IsModerate.before {x : ℕ} (hx : (x : ℤ) < ⌊value i.start⌋) :
    (Float32.ofNat x + 0.5 - (i.centered w).start).isFinite ∧
      value (Float32.ofNat x + 0.5 - (i.centered w).start) ≤ -1 / 8 := by
  obtain ⟨hstart, hlarge, hnear⟩ := hi.centered_near hw hpos hle
  have hfloor := Int.floor_le (value i.start)
  have hx' : (x : ℚ) + 1 ≤ ⌊value i.start⌋ := by exact_mod_cast hx
  have hx₀ : (0 : ℚ) ≤ x := Nat.cast_nonneg x
  have hstart' := (abs_le.mp hi.start_le).2
  have hcount : x < 2 ^ 23 := by
    have : (x : ℚ) < 2 ^ 23 := by linarith
    exact_mod_cast this
  obtain ⟨hcentre, hvalue⟩ := value_centre hcount
  rw [abs_le] at hlarge hnear
  -- of half a pixel the errors of the start and of this difference leave an eighth
  have hdistance : |value (Float32.ofNat x + 0.5) - value (i.centered w).start| < 2 ^ (22 : ℤ) := by
    rw [hvalue, abs_lt]
    norm_num at *
    constructor <;> linarith
  obtain ⟨hfinite, hnear'⟩ := (Rounds.sub hcentre hstart).near (by decide) (by decide) hdistance
  rw [hvalue, abs_le] at hnear'
  norm_num at *
  exact ⟨hfinite, by linarith⟩

/-- The centre of a pixel behind the interval is farther from the start than the end is. -/
theorem IsModerate.behind {x : ℕ} (hx : x < 2 ^ 23) (hstop : ⌈value i.stop⌉ ≤ x) :
    (Float32.ofNat x + 0.5 - (i.centered w).start).isFinite ∧
      value w + 1 / 8 ≤ value (Float32.ofNat x + 0.5 - (i.centered w).start) := by
  obtain ⟨hstart, hlarge, hnear⟩ := hi.centered_near hw hpos hle
  obtain ⟨-, hstop'⟩ := hi.stop_near
  have hceil := Int.le_ceil (value i.stop)
  have hx' : (⌈value i.stop⌉ : ℚ) ≤ x := by exact_mod_cast hstop
  have hx'' : (x : ℚ) + 1 ≤ 2 ^ 23 := by exact_mod_cast hx
  have hx₀ : (0 : ℚ) ≤ x := Nat.cast_nonneg x
  have hlength := (abs_le.mp hi.length_le).2
  obtain ⟨hcentre, hvalue⟩ := value_centre hx
  rw [abs_le] at hlarge hnear hstop'
  have hdistance : |value (Float32.ofNat x + 0.5) - value (i.centered w).start| < 2 ^ (24 : ℤ) := by
    rw [hvalue, abs_lt]
    norm_num at *
    constructor <;> linarith
  -- far behind the interval the error of the difference is large, but small beside the difference
  obtain ⟨hfinite, t, -, ht⟩ :=
    (Rounds.sub hcentre hstart).exists_exponent_le (by decide) (by decide) hdistance
  have hnear' := (abs_le.mp ht.abs_sub_le_relative).1
  rw [hvalue, abs_of_nonneg (by norm_num at *; linarith)] at hnear'
  norm_num at *
  exact ⟨hfinite, by linarith⟩

end

end Interval

/-! ## 3. Fitted images -/

namespace Number

variable {n : ℕ} (hcount : 0 < n) (hn : n < 2 ^ 32)

include hcount hn

/-- The scale of an image takes its length, and a part of a pixel more, to the image's last
pixel. -/
theorem scale_near {w : Float32} (hw : w.isFinite) (hpos : 0 < value w)
    (hle : value w ≤ 2 ^ 20 + 1) :
    (Float32.ofNat n / w).isFinite ∧ 1 / 2 ^ 22 ≤ value (Float32.ofNat n / w) ∧
        value (Float32.ofNat n) ≤ (value w + 1 / 8) * value (Float32.ofNat n / w) ∨
      (Float32.ofNat n / w).toModel.unpack = .infinity .positive := by
  obtain ⟨hfinite, c, hc, -, hvalue⟩ := exists_value_ofNat hcount hn
  have hc' : (1 : ℚ) ≤ c := by exact_mod_cast hc
  have hratio : value w * (c / value w : ℚ) = c := mul_div_cancel₀ _ hpos.ne'
  have hquotient := Rounds.div hfinite hw hpos.ne'
  rw [hvalue] at hquotient ⊢
  have hr : (0 : ℚ) < c / value w := div_pos (by linarith) hpos
  generalize (c / value w : ℚ) = r at hratio hquotient hr
  cases hquotient with
  | above _ h => exact .inr h
  | below h =>
    have : (0 : ℚ) < 2 ^ 127 := by positivity
    linarith
  | finite hscale t ht =>
    have hnear := (abs_le.mp ht.abs_sub_le_relative).1
    rw [abs_of_pos hr] at hnear
    have hlarge : (c : ℚ) ≤ r * (2 ^ 20 + 1) := by
      have hlonger := mul_le_mul_of_nonneg_right hle hr.le
      rw [hratio] at hlonger
      linarith
    -- what the quotient loses times the length is less than an eighth of the scale
    have hlength := mul_le_mul_of_nonneg_left hnear hpos.le
    rw [mul_neg, mul_add, mul_sub, ← mul_div_assoc, hratio] at hlength
    refine .inl ⟨hscale, ?_, ?_⟩
    · norm_num at hnear hlarge ⊢
      linarith
    · rw [add_mul]
      norm_num at hnear hlarge hlength hle ⊢
      linarith

/-- An image that is scaled to a length comes out a bit longer at most. -/
theorem scaled_near {length s : Float32} (hlength : length.isFinite)
    (hlarge : |value length| ≤ 2 ^ 20) (hs : s.isFinite)
    (hle : value s ≤ value (length / Float32.ofNat n)) (hshown : ¬Float32.ofNat n * s ≤ 0) :
    (Float32.ofNat n * s).isFinite ∧ 0 < value (Float32.ofNat n * s) ∧
      value (Float32.ofNat n * s) ≤ value length + 9 / 64 := by
  obtain ⟨hfinite, c, hc, hc₂, hvalue⟩ := exists_value_ofNat hcount hn
  have hc' : (1 : ℚ) ≤ c := by exact_mod_cast hc
  have hc₂' : (c : ℚ) ≤ 2 ^ 32 := by exact_mod_cast hc₂
  have hzero : (0 : Float32).isFinite := rfl
  have hproduct := Rounds.mul hfinite hs
  rw [hvalue] at hproduct
  -- an image that is shown is scaled by more than zero
  have hs₀ : 0 < value s := by
    by_contra hs₀
    have hnonpos : c * value s ≤ 0 :=
      mul_nonpos_of_nonneg_of_nonpos (by linarith) (not_lt.mp hs₀)
    cases hproduct with
    | finite hfinite' t ht =>
      have hle := ht.le_of_le le_rfl (j := 0) (by simpa using hnonpos)
      rw [Int.cast_zero, zero_mul] at hle
      exact hshown ((le_iff_value_le hfinite' hzero).mpr hle)
    | above h =>
      have : (0 : ℚ) < 2 ^ 127 := by positivity
      linarith
    | below _ h => exact hshown (le_of_infinite_negative h rfl)
  have hratio : c * (value length / c : ℚ) = value length :=
    mul_div_cancel₀ _ (by linarith : (c : ℚ) ≠ 0)
  have hquotient := Rounds.div hlength hfinite (by rw [hvalue]; linarith)
  rw [hvalue] at hquotient
  generalize (value length / c : ℚ) = r at hratio hquotient
  have hr : |r| ≤ 2 ^ 20 := by
    have hcount' : |(c : ℚ)| = c := Nat.abs_cast c
    refine (le_mul_of_one_le_left (abs_nonneg r) hc').trans ?_
    rwa [← hcount', ← abs_mul, hratio]
  have hr' : |r| < 2 ^ (21 : ℤ) := hr.trans_lt (by norm_num)
  obtain ⟨-, t, -, ht⟩ := hquotient.exists_exponent_le (by decide) (by decide) hr'
  have hr₀ : 0 < r := by
    by_contra hr₀
    have hnonpos := ht.le_of_le le_rfl (j := 0) (by simpa using hr₀)
    rw [Int.cast_zero, zero_mul] at hnonpos
    linarith
  have hnear := (abs_le.mp ht.abs_sub_le_relative).2
  rw [abs_of_pos hr₀] at hnear hr
  -- the scale is rounded once, and what it makes of the image a second time
  have hscaled : c * value s ≤ value length + value length / 2 ^ 24 + c / 2 ^ 150 := by
    rw [← hratio]
    have hstep := mul_le_mul_of_nonneg_left (hle.trans (sub_le_iff_le_add.mp hnear))
      (show (0 : ℚ) ≤ c by linarith)
    linarith
  have hlarge' := (abs_le.mp hlarge).2
  have hpositive : 0 < c * value s := mul_pos (by linarith) hs₀
  have hlt : |c * value s| < 2 ^ (21 : ℤ) := by
    rw [abs_of_pos hpositive]
    norm_num at hscaled hlarge' ⊢
    linarith
  obtain ⟨hfinite', hnear'⟩ := hproduct.near (by decide) (by decide) hlt
  refine ⟨hfinite', ?_, ?_⟩
  · rw [le_iff_value_le hfinite' hzero] at hshown
    exact not_le.mp hshown
  · rw [abs_le] at hnear'
    norm_num at hscaled hlarge' hnear' ⊢
    linarith

end Number

/-- A pixel that takes its colour from a row or column of a fitted image is one of the box. -/
theorem Interval.IsModerate.touches_of_sample {i : Interval} (hi : i.IsModerate) {n : ℕ}
    (hcount : 0 < n) (hn : n < 2 ^ 32) {s : Float32} (hs : s.isFinite)
    (hle : value s ≤ value (i.length / Float32.ofNat n)) (hshown : ¬Float32.ofNat n * s ≤ 0)
    {x : ℕ} (hx : x < 2 ^ 23)
    (hsample : (Canvas.sample? (Float32.ofNat x + 0.5) (i.centered (Float32.ofNat n * s)).start
      (Float32.ofNat n / (Float32.ofNat n * s)) n).isSome) : i.Touches x := by
  obtain ⟨hw, hpos, hw'⟩ :=
    scaled_near hcount hn hi.isFinite.2 hi.length_le hs hle hshown
  generalize Float32.ofNat n * s = w at hw hpos hw' hsample
  have hlength := (abs_le.mp hi.length_le).2
  have hscale := scale_near hcount hn hw hpos (by linarith)
  rw [Canvas.sample?] at hsample
  -- a pixel of another row or column has no sample on its side
  by_contra hout
  have hsides : (x : ℤ) < ⌊value i.start⌋ ∨ ⌈value i.stop⌉ ≤ x := by
    rw [Touches, toInt32_floor hi.isFinite.1, toInt32_ceil hi.stop_near.1] at hout
    omega
  rw [if_pos ?_] at hsample
  · cases hsample
  rcases hsides with hbefore | hbehind
  · left
    obtain ⟨hfinite, hvalue⟩ := hi.before hw hpos hw' hbefore
    exact floor_mul_lt_zero hfinite hvalue (hscale.imp_left fun h => ⟨h.1, h.2.1⟩)
  · right
    obtain ⟨hfinite, hvalue⟩ := hi.behind hw hpos hw' hx hbehind
    refine ofNat_le_floor_mul hcount hn hfinite (by linarith) (hscale.imp_left fun h => ⟨h.1, ?_⟩)
    have hscale₀ : (0 : ℚ) ≤ value (Float32.ofNat n / w) := by
      have : (0 : ℚ) < 1 / 2 ^ 22 := by norm_num
      linarith [h.2.1]
    exact h.2.2.trans (mul_le_mul_of_nonneg_right hvalue hscale₀)

theorem Number.isFinite_div_ofNat {n : ℕ} (hcount : 0 < n) (hn : n < 2 ^ 32) {length : Float32}
    (hlength : length.isFinite) (hlarge : |value length| ≤ 2 ^ 20) :
    (length / Float32.ofNat n).isFinite := by
  obtain ⟨hfinite, c, hc, -, hvalue⟩ := exists_value_ofNat hcount hn
  have hc' : (1 : ℚ) ≤ c := by exact_mod_cast hc
  have hquotient := Rounds.div hlength hfinite (by rw [hvalue]; linarith)
  rw [hvalue] at hquotient
  have hlt : |(value length / c : ℚ)| < 2 ^ (21 : ℤ) := by
    rw [abs_div, Nat.abs_cast]
    refine ((div_le_self (abs_nonneg _) hc').trans hlarge).trans_lt ?_
    norm_num
  exact (hquotient.near (by decide) (by decide) hlt).1

namespace Rect

structure IsModerate (r : Rect) : Prop where
  across : r.across.IsModerate
  down : r.down.IsModerate

/-- The scale that fits an image into a rectangle. -/
def fitScale (r : Rect) (picture : Picture) : Float32 :=
  Number.min (r.width / Float32.ofNat picture.width) (r.height / Float32.ofNat picture.height)

/-- The place of an image that is fitted into a rectangle. -/
def fitted (r : Rect) (picture : Picture) : Rect :=
  r.centered (Float32.ofNat picture.width * r.fitScale picture)
    (Float32.ofNat picture.height * r.fitScale picture)

theorem IsModerate.fitScale_le {r : Rect} (hr : r.IsModerate) {picture : Picture}
    (hcolumns : 0 < picture.width) (hwidth : picture.width < 2 ^ 32)
    (hrows : 0 < picture.height) (hheight : picture.height < 2 ^ 32) :
    (r.fitScale picture).isFinite ∧
      value (r.fitScale picture) ≤ value (r.width / Float32.ofNat picture.width) ∧
      value (r.fitScale picture) ≤ value (r.height / Float32.ofNat picture.height) := by
  have hacross : (r.width / Float32.ofNat picture.width).isFinite :=
    isFinite_div_ofNat hcolumns hwidth hr.across.isFinite.2 hr.across.length_le
  have hdown : (r.height / Float32.ofNat picture.height).isFinite :=
    isFinite_div_ofNat hrows hheight hr.down.isFinite.2 hr.down.length_le
  have hfinite : (r.fitScale picture).isFinite := by
    rw [fitScale]
    rcases min_eq_or (r.width / Float32.ofNat picture.width)
      (r.height / Float32.ofNat picture.height) with h | h
    · rwa [h]
    · rwa [h]
  obtain ⟨hle, hle'⟩ := min_le (isNaN_of_isFinite hacross) (isNaN_of_isFinite hdown)
  exact ⟨hfinite, (le_iff_value_le hfinite hacross).mp hle, (le_iff_value_le hfinite hdown).mp hle'⟩

/-- A fitted image is not cut off, and yet it colours pixels of its box only. -/
theorem IsModerate.holds_of_nearest? {r : Rect} (hr : r.IsModerate) {picture : Picture}
    (hcolumns : 0 < picture.width) (hwidth : picture.width < 2 ^ 32)
    (hrows : 0 < picture.height) (hheight : picture.height < 2 ^ 32)
    (harea : (r.fitted picture).HasArea) {x y : ℕ} (hx : x < 2 ^ 23) (hy : y < 2 ^ 23)
    (hsome : (Canvas.nearest? picture (r.fitted picture) x y).isSome) :
    (Canvas.Span.of r).Holds x y := by
  obtain ⟨hfinite, hacross, hdown⟩ := hr.fitScale_le hcolumns hwidth hrows hheight
  obtain ⟨pixel, hpixel⟩ := Option.isSome_iff_exists.mp hsome
  obtain ⟨i, hi, hrest⟩ := Option.bind_eq_some_iff.mp hpixel
  obtain ⟨j, hj, -⟩ := Option.bind_eq_some_iff.mp hrest
  exact ⟨hr.across.touches_of_sample hcolumns hwidth hfinite hacross harea.1 hx
      (Option.isSome_of_mem hi),
    hr.down.touches_of_sample hrows hheight hfinite hdown harea.2 hy (Option.isSome_of_mem hj)⟩

end Rect

/-- Only an image that is fitted into a box is not cut off at it. -/
theorem Fit.fitted_of_not_clipped {scale : ContentScale} {picture : Picture} {r : Rect}
    (h : ¬(Fit.of scale ⟨Float32.ofNat picture.width, Float32.ofNat picture.height⟩ r).clipped) :
    scale = .fit ∧ 0 < picture.width ∧ 0 < picture.height ∧
      (Fit.of scale ⟨Float32.ofNat picture.width, Float32.ofNat picture.height⟩ r).dest =
        r.fitted picture := by
  by_cases hempty : Float32.ofNat picture.width ≤ 0 ∨ Float32.ofNat picture.height ≤ 0
  · rw [Fit.of, if_pos hempty] at h
    exact absurd rfl h
  · have hpositive {n : ℕ} (hn : ¬Float32.ofNat n ≤ 0) : 0 < n := by
      refine Nat.pos_of_ne_zero fun hzero => hn ?_
      rw [hzero]
      decide +kernel
    rw [Fit.of, if_neg hempty] at h
    cases scale with
    | fill | crop | unscaled => exact absurd rfl h
    | fit =>
      rw [not_or] at hempty
      exact ⟨rfl, hpositive hempty.1, hpositive hempty.2,
        congrArg dest (if_neg (not_or.mpr hempty))⟩

end ContentCard
