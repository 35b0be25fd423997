import ContentCard.Proofs.Number.Scaling

/-!
# Differences and quotients

Differences and quotients of finite numbers are roundings as well.  A quotient is cut off behind
enough bits, and what is left of it tells on which side of the next half it lies.  What is too large
for a finite number becomes an infinite one of the same sign.
-/

namespace ContentCard.Number

open Float.Model (Format UnpackedFloat totalExponent)
open Float.Model.UnpackedFloat

/-! ## 1. Differences -/

section

variable {u v : UnpackedFloat}

theorem unpackedValue_neg (u : UnpackedFloat) : unpackedValue u.neg = -unpackedValue u := by
  cases u with
  | notANumber | infinity | zero => exact neg_zero.symm
  | finite s m e hm =>
    show ((-s).apply m : ℚ) * 2 ^ e = -(s.apply m * 2 ^ e)
    rw [← neg_apply]
    push_cast
    ring

theorem IsCanonical.neg (h : IsCanonical u) : IsCanonical u.neg := by
  cases u <;> exact h

theorem isFinite_neg (h : u.isFinite) : u.neg.isFinite := by
  cases u <;> exact h

theorem sub_isRounded (hu : u.isFinite) (hu' : IsCanonical u) (hv : v.isFinite)
    (hv' : IsCanonical v) :
    IsRounded (unpackedValue u - unpackedValue v) (UnpackedFloat.sub .binary32 u v) := by
  cases v with
  | notANumber | infinity => cases hv
  | finite s m e hm =>
    rw [sub_finite, sub_eq_add_neg, ← unpackedValue_neg]
    exact add_isRounded hu hu' rfl hv'
  | zero s =>
    rw [unpackedValue_zero, sub_zero]
    cases u with
    | notANumber | infinity => cases hu
    | finite s' m e hm => exact hu'.isRounded hu
    | zero s' =>
      cases s <;> cases s' <;> exact isRounded_zero _

end

/-! ## 2. Quotients -/

/-- What the rest of a division tells of the quotient. -/
theorem stands_fraction (n : ℕ) {d : ℕ} (hd : 0 < d) :
    Stands (.ofMantissaAndAccuracy (n / d) (accuracyOfFraction (n % d) d)) (n / d : ℚ) := by
  have hpos : (0 : ℚ) < d := by exact_mod_cast hd
  have hrest : ((n % d : ℕ) : ℚ) < d := by exact_mod_cast Nat.mod_lt n hd
  have hq : (n / d : ℚ) = (n / d : ℕ) + (n % d : ℕ) / d := by
    rw [add_div' _ _ _ hpos.ne', div_left_inj' hpos.ne']
    exact_mod_cast (Nat.div_add_mod' n d).symm
  rw [hq, accuracyOfFraction]
  generalize n / d = m
  generalize n % d = r at hrest
  have hr : (0 : ℚ) ≤ r / d := div_nonneg (Nat.cast_nonneg r) hpos.le
  have hr' : (r / d : ℚ) < 1 := (div_lt_one hpos).mpr hrest
  have hhalf : 2 * (r / d : ℚ) = (2 * r : ℕ) / d := by
    push_cast
    ring
  split
  next hzero =>
    subst hzero
    rw [Nat.cast_zero, zero_div, add_zero]
    exact stands_exact m
  next hzero =>
    -- the rest is compared with one half of the divisor
    cases hcompare : compare (2 * r) d with
    | lt =>
      have hlt : 2 * (r / d : ℚ) < 1 := by
        rw [hhalf, div_lt_one hpos]
        exact_mod_cast Nat.compare_eq_lt.mp hcompare
      have hsome : (0 : ℚ) < r / d := div_pos (by exact_mod_cast Nat.pos_of_ne_zero hzero) hpos
      constructor <;> simp only [ExtendedMantissa.ofMantissaAndAccuracy, Bool.toNat_false,
        Nat.cast_zero, reduceCtorEq, false_implies, forall_const] <;> linarith
    | eq =>
      have heq : 2 * (r / d : ℚ) = 1 := by
        rw [hhalf, div_eq_one_iff_eq hpos.ne']
        exact_mod_cast Nat.compare_eq_eq.mp hcompare
      constructor <;> simp only [ExtendedMantissa.ofMantissaAndAccuracy, Bool.toNat_true,
        Nat.cast_one, reduceCtorEq, false_implies, forall_const] <;> linarith
    | gt =>
      have hgt : 1 < 2 * (r / d : ℚ) := by
        rw [hhalf, one_lt_div hpos]
        exact_mod_cast Nat.compare_eq_gt.mp hcompare
      constructor <;> simp only [ExtendedMantissa.ofMantissaAndAccuracy, Bool.toNat_true,
        Nat.cast_one, reduceCtorEq, false_implies, forall_const] <;> linarith

/-- Enough bits of a quotient are computed to round it. -/
theorem isRounded_divCore (s : Sign) {m n : ℕ} (hm : 0 < m) (hn : 0 < n) (e f : ℤ) :
    let core := divCore .binary32 m e n f
    IsRounded ((s.apply 1 : ℤ) * (m / n * 2 ^ (e - f)))
      (roundWithAccuracy .binary32 s core.1 core.2.1 core.2.2) := by
  intro core
  let t := Min.min (e - f)
    (Max.max ((m.log2 : ℤ) + 1 + e - ((n.log2 : ℤ) + 1 + f) - 24) (-149))
  let k := (e - f - t).toNat
  -- the dividend gets `k` bits more, so that the quotient has 24 bits or ends on the finest grid
  have hcore : core = (m * 2 ^ k / n, t, accuracyOfFraction (m * 2 ^ k % n) n) := by
    show ((m <<< k) / n, t, accuracyOfFraction ((m <<< k) % n) n) = _
    rw [Nat.shiftLeft_eq]
  have hexp : e - f = t + k := by omega
  have hvalue : (m / n * 2 ^ (e - f) : ℚ) = (m * 2 ^ k : ℕ) / n * 2 ^ t := by
    rw [hexp, zpow_add₀ two_ne_zero, zpow_natCast]
    push_cast
    ring
  rw [hvalue, hcore]
  have hstands := stands_fraction (m * 2 ^ k) hn
  by_cases hsmall : (m.log2 : ℤ) + e - (n.log2 + f) - 24 ≤ -149
  · -- below the grid of the smallest numbers
    refine isRounded_roundWithAccuracy s hstands (.inr (by omega)) ?_
    rw [gridExponent_eq]
    omega
  · have hlarge : 2 ^ 23 ≤ m * 2 ^ k / n := by
      rw [Nat.le_div_iff_mul_le hn]
      calc
        2 ^ 23 * n ≤ 2 ^ 23 * 2 ^ (n.log2 + 1) := Nat.mul_le_mul_left _ Nat.lt_log2_self.le
        _ = 2 ^ (n.log2 + 24) := by rw [← pow_add]; congr 1; omega
        _ ≤ 2 ^ (m.log2 + k) := Nat.pow_le_pow_right two_pos (by omega)
        _ = 2 ^ m.log2 * 2 ^ k := pow_add _ _ _
        _ ≤ m * 2 ^ k := Nat.mul_le_mul_right _ (Nat.log2_self_le (Nat.ne_of_gt hm))
    have hpos : 0 < m * 2 ^ k / n := Nat.lt_of_lt_of_le (Nat.two_pow_pos 23) hlarge
    have hlog : 23 ≤ (m * 2 ^ k / n).log2 := (Nat.le_log2 (Nat.ne_of_gt hpos)).mpr hlarge
    refine isRounded_roundWithAccuracy s hstands (.inl hpos) ?_
    show t ≤ gridExponent (m * 2 ^ k / n) t
    rw [gridExponent_eq]
    omega

theorem div_isRounded {u v : UnpackedFloat} (hu : u.isFinite) (hv : v.isFinite)
    (hne : unpackedValue v ≠ 0) :
    IsRounded (unpackedValue u / unpackedValue v) (UnpackedFloat.div .binary32 u v) := by
  match u, v with
  | _, .zero _ => exact absurd rfl hne
  | .zero _, .finite _ _ _ _ =>
    rw [unpackedValue_zero, zero_div]
    exact isRounded_zero _
  | .finite s m e hm, .finite s' m' e' hm' =>
    have hvalue : unpackedValue (.finite s m e hm) / unpackedValue (.finite s' m' e' hm') =
        ((s / s').apply 1 : ℤ) * (m / m' * 2 ^ (e - e')) := by
      have hsign : s / s' = s * s' := by cases s <;> cases s' <;> rfl
      have hinv : ((s'.apply 1 : ℤ) : ℚ)⁻¹ = (s'.apply 1 : ℤ) := by cases s' <;> simp [Sign.apply]
      rw [unpackedValue_finite, unpackedValue_finite, apply_mul_two_zpow s,
        apply_mul_two_zpow s', mul_div_mul_comm, div_eq_mul_inv ((s.apply 1 : ℤ) : ℚ), hinv,
        hsign, ← Int.cast_mul, ← apply_mul_apply, mul_one, mul_div_mul_comm, zpow_sub₀ two_ne_zero]
    rw [hvalue]
    exact isRounded_divCore _ hm hm' e e'

section

variable {x y : Float32} (hx : x.isFinite) (hy : y.isFinite)

include hx hy

theorem isRounded_sub :
    IsRounded (value x - value y) (UnpackedFloat.sub .binary32 x.toModel.unpack y.toModel.unpack) :=
  sub_isRounded hx (isCanonical_unpack x) hy (isCanonical_unpack y)

theorem isRounded_div (hne : value y ≠ 0) :
    IsRounded (value x / value y) (UnpackedFloat.div .binary32 x.toModel.unpack y.toModel.unpack) :=
  div_isRounded hx hy hne

end

/-! ## 3. Results that may be too large -/

/-- The number is a rounding, or it is infinite on the same side of zero. -/
inductive Rounds (q : ℚ) (x : Float32) : Prop
  | finite (hx : x.isFinite) (t : ℤ) (h : IsRounding t q (value x))
  | above (h : 2 ^ 128 - 2 ^ 103 ≤ q) (hx : x.toModel.unpack = .infinity .positive)
  | below (h : q ≤ -(2 ^ 128 - 2 ^ 103)) (hx : x.toModel.unpack = .infinity .negative)

/-- Half a step of the grid below the first number that is too large. -/
theorem IsRounding.large_of_large {t : ℤ} {x z : ℚ} (h : IsRounding t x z) (hz : 2 ^ 128 ≤ z) :
    2 ^ 128 - 2 ^ 103 ≤ x := by
  by_contra hlt
  rw [not_le] at hlt
  have hpow : (2 : ℚ) ^ (103 : ℤ) = 2 ^ 103 := by norm_cast
  by_cases hneg : 0 ≤ x
  · have hsmall : |x| < 2 ^ (128 : ℤ) := by
      rw [abs_of_nonneg hneg]
      norm_num at hlt ⊢
      linarith
    have hhigh := (abs_le.mp (h.abs_sub_le (by decide) hsmall)).2
    norm_num at hhigh hlt hz
    linarith
  · have hzero := h.le_of_le le_rfl (j := 0) (by simpa using (not_le.mp hneg).le)
    norm_num at hzero hz
    linarith

/-- The step of the grid is relative to what is rounded, unless that is very small. -/
theorem IsRounding.abs_sub_le_relative {t : ℤ} {x z : ℚ} (h : IsRounding t x z) :
    |z - x| ≤ |x| / 2 ^ 24 + 1 / 2 ^ 150 := by
  have hnear := h.near
  have hx := abs_nonneg x
  obtain rfl | hlead := h.leading
  · have hleast : (2 : ℚ) ^ (-149 : ℤ) / 2 = 1 / 2 ^ 150 := by norm_num
    rw [hleast] at hnear
    have : 0 ≤ |x| / 2 ^ 24 := by positivity
    linarith
  · have hstep : (2 : ℚ) ^ (t + 23) = 2 ^ t / 2 * 2 ^ 24 := by
      rw [zpow_add₀ two_ne_zero]
      norm_num
      ring
    rw [hstep, ← le_div_iff₀ (by norm_num)] at hlead
    have : (0 : ℚ) < 1 / 2 ^ 150 := by norm_num
    linarith

namespace Rounds

variable {q : ℚ} {x y : Float32} {u : UnpackedFloat}

theorem of_isRounded (h : IsRounded q u) (hx : x = .ofModel (.pack u)) : Rounds q x := by
  obtain ⟨hfinite, hcanonical, t, ht⟩ := h
  have hunpack : x.toModel.unpack = (Float32.Model.pack u).unpack := by rw [hx]
  obtain hsame | hlarge := hcanonical.unpack_pack hfinite
  · refine .finite ?_ t ?_
    · show x.toModel.unpack.isFinite
      rwa [hunpack, hsame]
    · rwa [value, hunpack, hsame]
  · -- what is too large is infinite, on its side of zero
    cases u with
    | notANumber | infinity => cases hfinite
    | zero s => norm_num at hlarge
    | finite s m e hm =>
      rw [unpack_pack_finite s hm hcanonical] at hunpack
      by_cases he : e ≤ 104
      · rw [if_pos he] at hunpack
        refine .finite ?_ t ?_
        · show x.toModel.unpack.isFinite
          rw [hunpack]
          rfl
        · rwa [value, hunpack]
      · rw [if_neg he] at hunpack
        rw [unpackedValue_finite, abs_apply_mul] at hlarge
        cases s with
        | positive => exact .above (ht.large_of_large hlarge) hunpack
        | negative =>
          have hneg : -unpackedValue (.finite .negative m e hm) = m * 2 ^ e := by
            rw [unpackedValue_finite]
            simp [Sign.apply]
          have hlow := ht.neg.large_of_large (hneg ▸ hlarge)
          exact .below (by linarith) hunpack

/-- What is not too large has a finite result. -/
theorem exists_isRounding (h : Rounds q x) (hq : |q| < 2 ^ 127) :
    x.isFinite ∧ ∃ t, IsRounding t q (value x) := by
  obtain ⟨hlow, hhigh⟩ := abs_lt.mp hq
  cases h with
  | finite hx t ht => exact ⟨hx, t, ht⟩
  | above h => linarith
  | below h => linarith

/-- What is not below zero has a finite result, or an infinite one above zero. -/
theorem isRounding_or_infinite (h : Rounds q x) (hq : 0 ≤ q) :
    (x.isFinite ∧ ∃ t, IsRounding t q (value x)) ∨ x.toModel.unpack = .infinity .positive := by
  cases h with
  | finite hx t ht => exact .inl ⟨hx, t, ht⟩
  | above _ hx => exact .inr hx
  | below hlow _ =>
    norm_num at hlow
    linarith

theorem add (hx : x.isFinite) (hy : y.isFinite) : Rounds (value x + value y) (x + y) :=
  .of_isRounded (isRounded_add hx hy) rfl

theorem sub (hx : x.isFinite) (hy : y.isFinite) : Rounds (value x - value y) (x - y) :=
  .of_isRounded (isRounded_sub hx hy) rfl

theorem mul (hx : x.isFinite) (hy : y.isFinite) : Rounds (value x * value y) (x * y) :=
  .of_isRounded (isRounded_mul hx hy) rfl

theorem div (hx : x.isFinite) (hy : y.isFinite) (hne : value y ≠ 0) :
    Rounds (value x / value y) (x / y) := .of_isRounded (isRounded_div hx hy hne) rfl

section

variable (h : Rounds q x) {p g : ℤ} (hp : -125 ≤ p) (hp' : p ≤ 127) (hq : |q| < 2 ^ p)

include h hp hp' hq

/-- Below a power of two all points of the grid of 24 bits under it can be told apart. -/
theorem exists_exponent_le : x.isFinite ∧ ∃ t ≤ p - 24, IsRounding t q (value x) := by
  have hlarge : |q| < 2 ^ (127 : ℤ) := hq.trans_le (two_zpow_le hp')
  obtain ⟨hfinite, t, ht⟩ := h.exists_isRounding (by exact_mod_cast hlarge)
  exact ⟨hfinite, t, ht.exponent_le hp hq, ht⟩

/-- Half of the last of 24 bits is lost at most. -/
theorem near : x.isFinite ∧ |value x - q| ≤ 2 ^ (p - 25) := by
  obtain ⟨hfinite, t, -, ht⟩ := h.exists_exponent_le hp hp' hq
  exact ⟨hfinite, ht.abs_sub_le hp hq⟩

theorem ge_of_ge (hg : p - 24 ≤ g) {j : ℤ} (hj : j * 2 ^ g ≤ q) : j * 2 ^ g ≤ value x := by
  obtain ⟨-, t, hle, ht⟩ := h.exists_exponent_le hp hp' hq
  exact ht.ge_of_ge (hle.trans hg) hj

theorem le_of_le (hg : p - 24 ≤ g) {j : ℤ} (hj : q ≤ j * 2 ^ g) : value x ≤ j * 2 ^ g := by
  obtain ⟨-, t, hle, ht⟩ := h.exists_exponent_le hp hp' hq
  exact ht.le_of_le (hle.trans hg) hj

theorem eq_of_eq (hg : p - 24 ≤ g) {j : ℤ} (hj : q = j * 2 ^ g) : value x = q := by
  obtain ⟨-, t, hle, ht⟩ := h.exists_exponent_le hp hp' hq
  exact ht.eq_of_eq (hle.trans hg) hj

end

/-- A result lies between the whole numbers that what is rounded lies between. -/
theorem between (h : Rounds q x) {i j : ℤ} (hi : -2 ^ 24 < i) (hj : j < 2 ^ 24) (hlow : i ≤ q)
    (hhigh : q ≤ j) : x.isFinite ∧ i ≤ value x ∧ value x ≤ j := by
  have hi' : (-2 ^ 24 : ℚ) < i := by exact_mod_cast hi
  have hj' : (j : ℚ) < 2 ^ 24 := by exact_mod_cast hj
  have hlt : |q| < 2 ^ (24 : ℤ) := by
    rw [abs_lt, zpow_ofNat]
    constructor <;> linarith
  refine ⟨(h.near (by decide) (by decide) hlt).1, ?_, ?_⟩
  · simpa using h.ge_of_ge (by decide) (by decide) hlt (g := 0) (by decide) (by simpa using hlow)
  · simpa using h.le_of_le (by decide) (by decide) hlt (g := 0) (by decide) (by simpa using hhigh)

/-- Half of a number is exact, unless it is very small. -/
theorem value_div_two (hx : x.isFinite) (hlow : 1 ≤ |value x|) (hhigh : |value x| < 2 ^ 127) :
    (x / 2).isFinite ∧ value (x / 2) = value x / 2 := by
  have htwo : value 2 = 2 := value_ofNat (n := 2) (by decide)
  obtain ⟨t, ht⟩ := (isRounded_unpack hx).isRounding
  obtain ⟨r, hr⟩ := ht.onGrid
  have hlead : (2 : ℚ) ^ (t + 23) ≤ |value x| := ht.leading.resolve_left fun hleast => by
    have hlt := ht.lt
    rw [hleast] at hlt
    norm_num at hlt
    linarith
  have hlower := lt_of_two_zpow_lt (t := 0) (g := t + 24)
    (by rw [zpow_zero]; exact hlow.trans_lt ht.lt)
  have hupper := lt_of_two_zpow_lt (t := t + 23) (g := 127)
    (hlead.trans_lt (by exact_mod_cast hhigh))
  have hhalf : (r : ℚ) * 2 ^ t / 2 = r * 2 ^ (t - 1) := by
    rw [zpow_sub_one₀ two_ne_zero]
    ring
  have hquotient := Rounds.div hx (y := 2) rfl (by rw [htwo]; norm_num)
  have hlt : |value x / value 2| < 2 ^ (t + 23) := by
    have hstep : (2 : ℚ) ^ (t + 24) = 2 ^ (t + 23) * 2 := by
      rw [← zpow_add_one₀ two_ne_zero]
      congr 1
      ring
    have := ht.lt
    rw [htwo, abs_div, abs_two]
    linarith
  refine ⟨(hquotient.near (by omega) (by omega) hlt).1, ?_⟩
  -- the half stands on the grid that is one step finer
  have hexact := hquotient.eq_of_eq (by omega) (by omega) hlt (g := t - 1) (by omega) (j := r)
    (by rw [htwo, ← hhalf]; exact congrArg (· / 2) hr)
  rw [hexact, htwo]

end Rounds

/-! ## 4. The order of infinite numbers -/

section

variable {x y : Float32}

theorem le_iff_value_le (hx : x.isFinite) (hy : y.isFinite) : x ≤ y ↔ value x ≤ value y := by
  have hx' := isNaN_of_isFinite hx
  have hy' := isNaN_of_isFinite hy
  rw [← not_lt, ← lt_iff_value_lt hy hx]
  exact ⟨not_lt_of_le, le_of_not_lt hy' hx'⟩

/-- The ranks of the two infinite numbers are the least and the greatest. -/
theorem rank_between {j : ℤ ×ₗ ℤ ×ₗ ℤ} (hj : j ∈ rank x) :
    toLex (-2, toLex (0, 0)) ≤ j ∧ j ≤ toLex (2, toLex (0, 0)) := by
  change j ∈ unpackedRank x.toModel.unpack at hj
  generalize x.toModel.unpack = u at hj
  match u with
  | .infinity .positive | .infinity .negative | .zero _ | .finite .positive _ _ _
  | .finite .negative _ _ _ =>
    obtain rfl := Option.some.inj hj
    simp [Prod.Lex.toLex_le_toLex]

theorem le_of_infinite_positive (hx : x.toModel.unpack = .infinity .positive)
    (hy : y.isNaN = false) : y ≤ x := by
  obtain ⟨j, hj⟩ := exists_rank_iff.mpr hy
  have hrank : toLex (2, toLex (0, 0)) ∈ rank x := by
    show _ ∈ unpackedRank x.toModel.unpack
    rw [hx]
    rfl
  exact le_iff.mpr ⟨j, hj, _, hrank, (rank_between hj).2⟩

theorem le_of_infinite_negative (hx : x.toModel.unpack = .infinity .negative)
    (hy : y.isNaN = false) : x ≤ y := by
  obtain ⟨j, hj⟩ := exists_rank_iff.mpr hy
  have hrank : toLex (-2, toLex (0, 0)) ∈ rank x := by
    show _ ∈ unpackedRank x.toModel.unpack
    rw [hx]
    rfl
  exact le_iff.mpr ⟨_, hrank, j, hj, (rank_between hj).1⟩

end

end ContentCard.Number
