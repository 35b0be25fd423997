import ContentCard.Proofs.Number.Thresholds

/-!
# Shares taken back

What is divided by a number and multiplied by it again goes through two roundings.  A divisor that
is larger by a power of two leads through the same ones, as long as the quotients do not come below
the normal numbers.
-/

namespace ContentCard.Number

open Float.Model (UnpackedFloat)

/-! ## 1. One rounding only -/

section

variable {t g : ℤ} {x z w : ℚ}

theorem IsRounding.exponent_le_of (h : IsRounding t x z) (h' : IsRounding g x w) : t ≤ g := by
  obtain rfl | hlead := h.leading
  · exact h'.least
  · have := lt_of_two_zpow_lt (hlead.trans_lt h'.lt)
    omega

/-- There is one nearest point, or two of which one is even. -/
theorem IsRounding.unique (h : IsRounding t x z) (h' : IsRounding g x w) : z = w := by
  obtain rfl : t = g := le_antisymm (h.exponent_le_of h') (h'.exponent_le_of h)
  have eq_of_even {z w : ℚ} (h : IsRounding t x z) (h' : IsRounding t x w) {r : ℤ} (hr : Even r)
      (hz : z = r * 2 ^ t) : z = w := by
    obtain ⟨hlow, hhigh⟩ := abs_le.mp h.near
    have hle := h'.le_of_le_middle hr (by linarith)
    have hge := h'.ge_of_ge_middle hr (by linarith)
    linarith
  obtain ⟨r, hr⟩ := h.onGrid
  obtain ⟨i, hi⟩ := h'.onGrid
  have hpos := two_zpow_pos t
  by_cases hreven : Even r
  · exact eq_of_even h h' hreven hr
  by_cases hieven : Even i
  · exact (eq_of_even h' h hieven hi).symm
  -- two odd points are both less than half a step away
  have hlt {z w : ℚ} (h : IsRounding t x z) {r : ℤ} (hr : ¬Even r) (hz : z = r * 2 ^ t) :
      |z - x| < 2 ^ t / 2 := by
    refine lt_of_le_of_ne h.near fun htie => ?_
    obtain ⟨j, hj, hzj⟩ := h.even htie
    have heq : r = j := by exact_mod_cast mul_right_cancel₀ hpos.ne' (hz.symm.trans hzj)
    exact hr (heq ▸ hj)
  obtain ⟨hlow, hhigh⟩ := abs_lt.mp (hlt (w := w) h hreven hr)
  obtain ⟨hlow', hhigh'⟩ := abs_lt.mp (hlt (w := z) h' hieven hi)
  have hnext : (r : ℚ) * 2 ^ t < (i + 1 : ℤ) * 2 ^ t := by push_cast; linarith
  have hnext' : (i : ℚ) * 2 ^ t < (r + 1 : ℤ) * 2 ^ t := by push_cast; linarith
  have hri : r < i + 1 := by exact_mod_cast lt_of_mul_lt_mul_right hnext hpos.le
  have hir : i < r + 1 := by exact_mod_cast lt_of_mul_lt_mul_right hnext' hpos.le
  rw [hr, hi, le_antisymm (Int.lt_add_one_iff.mp hri) (Int.lt_add_one_iff.mp hir)]

/-- Above the subnormal numbers the rounding moves along with what is rounded. -/
theorem IsRounding.scale {k : ℤ} (h : IsRounding t x z) (hx : 2 ^ (-126 : ℤ) ≤ |x|)
    (hx' : 2 ^ (-126 : ℤ) ≤ |x * 2 ^ k|) : IsRounding (t + k) (x * 2 ^ k) (z * 2 ^ k) := by
  have hpos := two_zpow_pos k
  have habs (q : ℚ) : |q * 2 ^ k| = |q| * 2 ^ k := by rw [abs_mul, abs_of_pos hpos]
  have hstep (e : ℤ) : (2 : ℚ) ^ (t + k + e) = 2 ^ (t + e) * 2 ^ k := by
    rw [← zpow_add₀ two_ne_zero]
    congr 1
    ring
  have hlt : |x * 2 ^ k| < 2 ^ (t + k + 24) := by
    rw [habs, hstep]
    exact mul_lt_mul_of_pos_right h.lt hpos
  have hlead : 2 ^ (t + 23) ≤ |x| := h.leading.elim (fun ht => by rw [ht]; exact hx) id
  have hdist : |z * 2 ^ k - x * 2 ^ k| = |z - x| * 2 ^ k := by rw [← sub_mul, habs]
  have hhalf : (2 : ℚ) ^ (t + k) / 2 = 2 ^ t / 2 * 2 ^ k := by
    rw [zpow_add₀ two_ne_zero]
    ring
  have hgrid (r : ℤ) (hr : z = r * 2 ^ t) : z * 2 ^ k = r * 2 ^ (t + k) := by
    rw [hr, zpow_add₀ two_ne_zero]
    ring
  refine ⟨?_, hlt, .inr ?_, ?_, ?_, ?_⟩
  · have := lt_of_two_zpow_lt (hx'.trans_lt hlt)
    omega
  · rw [habs, hstep]
    exact mul_le_mul_of_nonneg_right hlead hpos.le
  · obtain ⟨r, hr⟩ := h.onGrid
    exact ⟨r, hgrid r hr⟩
  · rw [hdist, hhalf]
    exact mul_le_mul_of_nonneg_right h.near hpos.le
  · rw [hdist, hhalf]
    intro htie
    obtain ⟨r, heven, hr⟩ := h.even (mul_right_cancel₀ hpos.ne' htie)
    exact ⟨r, heven, hgrid r hr⟩

end

/-! ## 2. Divided and multiplied -/

section

variable {x y d : Float32} {q : ℚ}

/-- A number that is not rounded to zero is rounded to one number only. -/
theorem Rounds.unique (h : Rounds q x) (h' : Rounds q y) (hpos : 1 / 2 ^ 150 < q) : x = y := by
  cases h with
  | finite hx t ht =>
    have hne : value x ≠ 0 := (ht.pos_iff.mpr hpos).ne'
    cases h' with
    | finite hy g hg => exact eq_of_value_eq hx hy hne (ht.unique hg)
    | above hq hy =>
      have hlt := (Rounds.isFinite_iff (.finite hx t ht)).mp hx
      exact absurd (hq.trans (le_abs_self q)) (not_le.mpr hlt)
    | below hq hy => norm_num at hpos hq; linarith
  | above hq hx =>
    cases h' with
    | finite hy g hg =>
      have hlt := (Rounds.isFinite_iff (.finite hy g hg)).mp hy
      exact absurd (hq.trans (le_abs_self q)) (not_le.mpr hlt)
    | above _ hy => exact ext_unpack (hx.trans hy.symm)
    | below hq' hy => norm_num at hq hq'; linarith
  | below hq hx => norm_num at hpos hq; linarith

/-- A share of a number by a divisor that is not below one. -/
theorem isRounding_share (hd : d.isFinite) (hx : x.isFinite) (hone : 1 ≤ value x)
    (hnonneg : 0 ≤ value d) : (d / x).isFinite ∧ ∃ t, IsRounding t (value d / value x)
      (value (d / x)) := by
  have hpos : 0 < value x := zero_lt_one.trans_le hone
  have hshare := Rounds.div hd hx hpos.ne'
  have hself : Rounds (value d) d := by
    obtain ⟨t, ht⟩ := (isRounded_unpack hd).isRounding
    exact .finite hd t ht
  have hle : |value d / value x| ≤ |value d| := by
    rw [abs_of_nonneg hnonneg, abs_of_nonneg (div_nonneg hnonneg hpos.le)]
    exact div_le_self hnonneg hone
  have hfinite : (d / x).isFinite :=
    hshare.isFinite_iff.mpr (hle.trans_lt (hself.isFinite_iff.mp hd))
  cases hshare with
  | finite _ t ht => exact ⟨hfinite, t, ht⟩
  | above _ h => rw [eq_infinite_positive h] at hfinite; cases hfinite
  | below _ h => rw [eq_infinite_negative h] at hfinite; cases hfinite

variable {k : ℤ}

/-- A power of two in the divisor is lost again, unless the quotients are subnormal. -/
theorem Scaled.mul_div_eq (h : Scaled k x y) (hx : 1 ≤ value x) (hy : 1 ≤ value y)
    (hd : d.isFinite) (hnormal : 2 ^ (-126 : ℤ) * value x ≤ value d)
    (hnormal' : 2 ^ (-126 : ℤ) * value y ≤ value d) : x * (d / x) = y * (d / y) := by
  have hpos : 0 < value x := zero_lt_one.trans_le hx
  have hleast := two_zpow_pos (-126)
  have hnonneg : 0 ≤ value d := (mul_pos hleast hpos).le.trans hnormal
  obtain ⟨hfinite, t, ht⟩ := isRounding_share hd h.isFinite_left hx hnonneg
  obtain ⟨hfinite', g, hg⟩ := isRounding_share hd h.isFinite_right hy hnonneg
  have hquotient : value d / value y = value d / value x * 2 ^ (-k) := by
    rw [h.value_eq, zpow_neg, div_mul_eq_div_div, div_eq_mul_inv (value d / value x)]
  have hlow : 2 ^ (-126 : ℤ) ≤ value d / value x := by
    rwa [le_div_iff₀ hpos]
  have hlow' : 2 ^ (-126 : ℤ) ≤ value d / value x * 2 ^ (-k) := by
    rwa [← hquotient, le_div_iff₀ (zero_lt_one.trans_le hy)]
  -- the shares differ by the power of two only, and the products not even before they are rounded
  have hscaled := ht.scale (k := -k) (hlow.trans (le_abs_self _)) (hlow'.trans (le_abs_self _))
  rw [← hquotient] at hscaled
  have hvalue : value y * value (d / y) = value x * value (d / x) := by
    rw [hg.unique hscaled, h.value_eq, mul_mul_mul_comm, ← zpow_add₀ two_ne_zero, add_neg_cancel,
      zpow_zero, mul_one]
  have hproduct := Rounds.mul h.isFinite_right hfinite'
  rw [hvalue] at hproduct
  refine (Rounds.mul h.isFinite_left hfinite).unique hproduct ?_
  have hshare := ht.two_zpow_le_of_le (by decide) hlow
  calc
    (1 / 2 ^ 150 : ℚ) < 2 ^ (-126 : ℤ) := by norm_num
    _ ≤ value (d / x) := hshare
    _ ≤ value x * value (d / x) := le_mul_of_one_le_left (hleast.le.trans hshare) hx

theorem unpack_of_not_finite (hd : 0 < d) (hfinite : ¬d.isFinite) :
    d.toModel.unpack = .infinity .positive := by
  have hnan := (isNaN_of_le (le_of_lt hd)).2
  change ¬d.toModel.unpack.isFinite at hfinite
  change d.toModel.unpack.isNaN = false at hnan
  cases hu : d.toModel.unpack with
  | notANumber => rw [hu] at hnan; cases hnan
  | zero | finite => rw [hu] at hfinite; exact absurd rfl hfinite
  | infinity s =>
    cases s with
    | positive => rfl
    | negative => exact absurd hd (not_lt_of_le (le_of_infinite_negative hu rfl))

/-- Shares of what is infinite are infinite. -/
theorem mul_div_infinite (hx : x.isFinite) (hone : 1 ≤ value x)
    (hd : d.toModel.unpack = .infinity .positive) : x * (d / x) = d := by
  obtain ⟨m, e, hm, hu, -⟩ := exists_unpack_of_one_le hx hone
  have hdiv : UnpackedFloat.div .binary32 d.toModel.unpack x.toModel.unpack =
      .infinity .positive := by
    rw [hd, hu]
    rfl
  have hshare : (d / x).toModel.unpack = .infinity .positive := by
    show (Float32.Model.pack (UnpackedFloat.div .binary32 _ _)).unpack = _
    rw [hdiv]
    rfl
  have hmul : UnpackedFloat.mul .binary32 x.toModel.unpack (d / x).toModel.unpack =
      .infinity .positive := by
    rw [hshare, hu]
    rfl
  refine ext_unpack ?_
  show (Float32.Model.pack (UnpackedFloat.mul .binary32 _ _)).unpack = _
  rw [hmul, hd]
  rfl

theorem max_one_of_one_le (hx : x.isFinite) (hone : 1 ≤ value x) : max 1 x = x := by
  have hvalue : value 1 = 1 := value_ofNat (n := 1) (by decide)
  show (if 1 < x then x else 1) = x
  split
  · rfl
  · rename_i hle
    rw [lt_iff_value_lt rfl hx, hvalue, not_lt] at hle
    exact eq_of_value_eq rfl hx (by rw [hvalue]; exact one_ne_zero)
      (hvalue.trans (le_antisymm hone hle))

/-- A share of a positive number, by the divisor `w`, is below the normal numbers. -/
def isSubnormalShare (d : Float32) (w : ℚ) : Bool :=
  0 < d && d.isFinite && value d < 2 ^ (-126 : ℤ) * w

theorem le_of_isSubnormalShare {w : ℚ} (h : isSubnormalShare d w = false) (hd : 0 < d)
    (hfinite : d.isFinite) : 2 ^ (-126 : ℤ) * w ≤ value d := by
  rw [isSubnormalShare, decide_eq_true hd, hfinite] at h
  exact not_lt.mp (of_decide_eq_false h)

/-- Growth below one counts as one here, and above one it is lost again. -/
theorem Proportional.mul_div_max_eq (h : Proportional k x y) (hd : 0 < d)
    (hx : isSubnormalShare d (value x) = false) (hy : isSubnormalShare d (value y) = false) :
    max 1 y * (d / max 1 y) = max 1 x * (d / max 1 x) := by
  obtain ⟨rfl, rfl⟩ | ⟨hscaled, hone, hone'⟩ := h
  · rfl
  · rw [max_one_of_one_le hscaled.isFinite_left hone,
      max_one_of_one_le hscaled.isFinite_right hone']
    by_cases hfinite : d.isFinite
    · exact (hscaled.mul_div_eq hone hone' hfinite (le_of_isSubnormalShare hx hd hfinite)
        (le_of_isSubnormalShare hy hd hfinite)).symm
    · have hinfinite := unpack_of_not_finite hd hfinite
      rw [mul_div_infinite hscaled.isFinite_left hone hinfinite,
        mul_div_infinite hscaled.isFinite_right hone' hinfinite]

theorem Proportional.value_eq (h : Proportional k x y) : value y = value x * 2 ^ k := by
  obtain ⟨rfl, rfl⟩ | ⟨hscaled, -⟩ := h
  · exact (zero_mul _).symm
  · exact hscaled.value_eq

end

end ContentCard.Number
