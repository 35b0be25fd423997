import ContentCard.Proofs.Number.Integers

/-!
# Where roundings change

What is rounded to zero, to one and to an infinite number, exactly.  Each of these regions ends in
the middle between two neighbours, and the middle belongs to the even one.
-/

namespace ContentCard.Number

open Float.Model.UnpackedFloat

/-! ## 1. Zero, one and the largest numbers -/

section

variable {t : ℤ} {x z : ℚ} (h : IsRounding t x z)

include h

theorem IsRounding.nonneg_of_nonneg (hx : 0 ≤ x) : 0 ≤ z := by
  simpa using h.ge_of_ge le_rfl (j := 0) (by simpa using hx)

/-- The least positive number is `2 ^ -149`, and the middle before it goes to zero. -/
theorem IsRounding.pos_iff : 0 < z ↔ 1 / 2 ^ 150 < x := by
  have hhalf : (2 : ℚ) ^ (-149 : ℤ) / 2 = 1 / 2 ^ 150 := by norm_num
  constructor
  · intro hz
    by_contra hle
    rw [not_lt] at hle
    by_cases hx : 0 ≤ x
    · have hsmall : |x| < 2 ^ (-125 : ℤ) := by
        rw [abs_of_nonneg hx]
        exact hle.trans_lt (by norm_num)
      obtain rfl : t = -149 := le_antisymm (h.exponent_le (by decide) hsmall) h.least
      have := h.le_of_le_middle .zero (by rw [Int.cast_zero, zero_mul, zero_add, hhalf]; exact hle)
      rw [Int.cast_zero, zero_mul] at this
      exact absurd hz (not_lt.mpr this)
    · have := h.neg.nonneg_of_nonneg (by linarith)
      linarith
  · intro hx
    obtain rfl | hlead := h.leading
    · have hnear := (abs_le.mp h.near).1
      rw [hhalf] at hnear
      linarith
    · have hpos : 0 < x := lt_trans (by norm_num) hx
      rw [abs_of_pos hpos] at hlead
      have hge := h.ge_of_ge (g := t + 23) (by omega) (j := 1) (by simpa using hlead)
      rw [Int.cast_one, one_mul] at hge
      exact (two_zpow_pos _).trans_le hge

/-- Below one the grid of the numbers from a half on has steps of `2 ^ -24`. -/
theorem IsRounding.eq_one_iff_of_lt_one (hx : 0 ≤ x) (hone : x < 1) :
    z = 1 ↔ 1 - 1 / 2 ^ 25 ≤ x := by
  have hstep : (2 : ℚ) ^ (-24 : ℤ) = 1 / 2 ^ 24 := by norm_num
  have hlt : |x| < 2 ^ (0 : ℤ) := by rwa [abs_of_nonneg hx, zpow_zero]
  have hexp := h.exponent_le (by decide) hlt
  have hle : z ≤ 1 := by
    simpa using h.le_of_le (g := 0) (by omega) (j := 1) (by simpa using hone.le)
  constructor
  · intro hz
    have hnear := h.abs_sub_le (by decide) hlt
    norm_num [hz] at hnear ⊢
    linarith [(abs_le.mp hnear).2]
  · intro hlow
    have hlead : (2 : ℚ) ^ (-1 : ℤ) < 2 ^ (t + 24) := by
      refine lt_trans ?_ h.lt
      rw [abs_of_nonneg hx]
      norm_num at hlow ⊢
      linarith
    obtain rfl : t = -24 := by
      have := lt_of_two_zpow_lt hlead
      omega
    have hge := h.ge_of_ge_middle (j := 2 ^ 24) (by decide) (by
      rw [hstep]
      norm_num at hlow ⊢
      linarith)
    rw [hstep] at hge
    norm_num at hge
    exact le_antisymm hle hge

/-- From one on the steps are twice as large. -/
theorem IsRounding.eq_one_iff_of_one_le (hone : 1 ≤ x) (htwo : x < 2) :
    z = 1 ↔ x ≤ 1 + 1 / 2 ^ 24 := by
  have hstep : (2 : ℚ) ^ (-23 : ℤ) = 1 / 2 ^ 23 := by norm_num
  have hlt : |x| < 2 ^ (1 : ℤ) := by rwa [abs_of_nonneg (by linarith), zpow_one]
  have hexp := h.exponent_le (by decide) hlt
  have hge : 1 ≤ z := by
    simpa using h.ge_of_ge (g := 0) (hexp.trans (by decide)) (j := 1) (by simpa using hone)
  constructor
  · intro hz
    have hnear := h.abs_sub_le (by decide) hlt
    norm_num [hz] at hnear ⊢
    linarith [(abs_le.mp hnear).1]
  · intro hhigh
    have hlead : (2 : ℚ) ^ (0 : ℤ) < 2 ^ (t + 24) := by
      refine lt_of_le_of_lt ?_ h.lt
      rwa [abs_of_nonneg (by linarith), zpow_zero]
    obtain rfl : t = -23 := by
      have := lt_of_two_zpow_lt hlead
      omega
    have hle := h.le_of_le_middle (j := 2 ^ 23) (by decide) (by
      rw [hstep]
      norm_num at hhigh ⊢
      linarith)
    rw [hstep] at hle
    norm_num at hle
    exact le_antisymm hle hge

theorem IsRounding.eq_one_iff : z = 1 ↔ 1 - 1 / 2 ^ 25 ≤ x ∧ x ≤ 1 + 1 / 2 ^ 24 := by
  have hsmall : (0 : ℚ) < 1 - 1 / 2 ^ 25 := by norm_num
  have hsmall' : (1 - 1 / 2 ^ 25 : ℚ) ≤ 1 := by norm_num
  have hlarge : (1 : ℚ) ≤ 1 + 1 / 2 ^ 24 := by norm_num
  have hlarge' : (1 + 1 / 2 ^ 24 : ℚ) < 2 := by norm_num
  obtain hneg | hx := lt_or_ge x 0
  · have hz := h.neg.nonneg_of_nonneg (by linarith)
    exact iff_of_false (by linarith) fun hclose => by linarith [hclose.1]
  obtain hone | hone := lt_or_ge x 1
  · rw [h.eq_one_iff_of_lt_one hx hone, and_iff_left (hone.le.trans hlarge)]
  obtain htwo | htwo := lt_or_ge x 2
  · rw [h.eq_one_iff_of_one_le hone htwo, and_iff_right (hsmall'.trans hone)]
  · have hge := h.two_zpow_le_of_le (p := 1) (by decide) (by rwa [zpow_one])
    rw [zpow_one] at hge
    exact iff_of_false (by linarith) fun hclose => by linarith [hclose.2]

/-- The largest number is `2 ^ 128 - 2 ^ 104`, and the middle behind it is too large. -/
theorem IsRounding.large_iff : 2 ^ 128 ≤ |z| ↔ 2 ^ 128 - 2 ^ 103 ≤ |x| := by
  have habs : IsRounding t |x| |z| := by
    obtain hx | hx := le_total 0 x
    · rwa [abs_of_nonneg hx, abs_of_nonneg (h.nonneg_of_nonneg hx)]
    · have hz := h.neg.nonneg_of_nonneg (by linarith)
      rw [abs_of_nonpos hx, abs_of_nonpos (by linarith)]
      exact h.neg
  refine ⟨habs.large_of_large, fun hx => ?_⟩
  by_cases ht : t = 104
  · subst ht
    have hstep : (2 : ℚ) ^ (104 : ℤ) = 2 ^ 104 := by norm_cast
    have hge := habs.ge_of_ge_middle (j := 2 ^ 24) (by decide) (by
      rw [hstep]
      norm_num at hx ⊢
      linarith)
    rw [hstep] at hge
    norm_num at hge ⊢
    exact hge
  · have hlead : (2 : ℚ) ^ (127 : ℤ) < 2 ^ (t + 24) := by
      refine lt_trans ?_ h.lt
      norm_num at hx ⊢
      linarith
    have hexp := lt_of_two_zpow_lt hlead
    have hlarge := habs.two_zpow_le_of_le (p := t + 23) (by omega) (by
      rw [← abs_abs x]
      exact habs.leading.resolve_left (by omega))
    have hpow : (2 : ℚ) ^ (128 : ℤ) ≤ 2 ^ (t + 23) := two_zpow_le (by omega)
    exact_mod_cast hpow.trans hlarge

end

/-! ## 2. Results of operations -/

section

variable {x : Float32}

theorem value_neg_one : value (-1) = -1 := by
  have hone : value 1 = (1 : ℕ) := value_ofNat (by decide)
  have hneg : value (-1) = -value 1 := (value_neg (x := 1) rfl).2
  rw [hneg, hone, Nat.cast_one]

theorem eq_infinite_positive (hx : x.toModel.unpack = .infinity .positive) : x = 1 / 0 :=
  ext_unpack (by rw [hx]; rfl)

theorem eq_infinite_negative (hx : x.toModel.unpack = .infinity .negative) : x = -1 / 0 :=
  ext_unpack (by rw [hx]; rfl)

end

namespace Rounds

variable {q : ℚ} {x : Float32} (h : Rounds q x)

include h

theorem isFinite_iff : x.isFinite ↔ |q| < 2 ^ 128 - 2 ^ 103 := by
  cases h with
  | finite hx t ht =>
    refine iff_of_true hx (not_le.mp fun hlarge => ?_)
    have hvalue := ((isCanonical_unpack x).isFinite_pack_iff hx).mp (by rw [pack_unpack]; exact hx)
    exact absurd (ht.large_iff.mpr hlarge) (not_le.mpr hvalue)
  | above hq hx =>
    rw [eq_infinite_positive hx]
    exact iff_of_false (by decide) (not_lt.mpr (hq.trans (le_abs_self q)))
  | below hq hx =>
    rw [eq_infinite_negative hx]
    exact iff_of_false (by decide) (not_lt.mpr ((le_neg.mpr hq).trans (neg_le_abs q)))

theorem pos_iff : 0 < x ↔ 1 / 2 ^ 150 < q := by
  cases h with
  | finite hx t ht => rw [lt_iff_value_lt rfl hx, value_zero, ht.pos_iff]
  | above hq hx =>
    rw [eq_infinite_positive hx]
    have hlarge : (1 / 2 ^ 150 : ℚ) < 2 ^ 128 - 2 ^ 103 := by norm_num
    exact iff_of_true (by decide) (hlarge.trans_le hq)
  | below hq hx =>
    rw [eq_infinite_negative hx]
    exact iff_of_false (by decide) (not_lt.mpr (hq.trans (by norm_num)))

theorem nonneg_iff : 0 ≤ x ↔ -(1 / 2 ^ 150) ≤ q := by
  cases h with
  | finite hx t ht =>
    have hneg := ht.neg.pos_iff
    rw [le_iff_value_le rfl hx, value_zero, ← not_lt, ← not_lt, ← neg_pos, hneg, lt_neg]
  | above hq hx =>
    rw [eq_infinite_positive hx]
    have hlarge : -(1 / 2 ^ 150 : ℚ) ≤ 2 ^ 128 - 2 ^ 103 := by norm_num
    exact iff_of_true (by decide) (hlarge.trans hq)
  | below hq hx =>
    rw [eq_infinite_negative hx]
    exact iff_of_false (by decide) (not_le.mpr (hq.trans_lt (by norm_num)))

theorem beq_neg_one_iff : (x == -1) = true ↔ -1 - 1 / 2 ^ 24 ≤ q ∧ q ≤ -1 + 1 / 2 ^ 25 := by
  cases h with
  | finite hx t ht =>
    rw [beq_iff_value_eq hx rfl, value_neg_one, ← neg_eq_iff_eq_neg, ht.neg.eq_one_iff]
    constructor
    · rintro ⟨hlow, hhigh⟩
      exact ⟨by linarith, by linarith⟩
    · rintro ⟨hlow, hhigh⟩
      exact ⟨by linarith, by linarith⟩
  | above hq hx =>
    rw [eq_infinite_positive hx]
    refine iff_of_false (by decide) fun hclose => ?_
    norm_num at hq hclose
    linarith [hclose.2]
  | below hq hx =>
    rw [eq_infinite_negative hx]
    refine iff_of_false (by decide) fun hclose => ?_
    norm_num at hq hclose
    linarith [hclose.1]

end Rounds

end ContentCard.Number
