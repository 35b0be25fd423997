import ContentCard.Proofs.Number.Whole
import Mathlib.Data.Int.ConditionallyCompleteOrder
import Mathlib.Data.Rat.Floor

/-!
# Rounding

The value of a number is a rational one, and a sum or product is a nearest value on the grid of
numbers of its size (`IsRounding`).  So it is off by half a step of that grid at most, and lies on
the same side of every point of the grid as what is rounded.
-/

namespace ContentCard.Number

open Float.Model (Format UnpackedFloat totalExponent)
open Float.Model.UnpackedFloat

/-! ## 1. What is shifted out -/

/-- The mantissa and the bit behind it are those of `q`; the sticky bit tells whether anything
follows. -/
structure Stands (em : ExtendedMantissa) (q : ℚ) : Prop where
  le : 2 * (em.mantissa : ℚ) + em.roundBit.toNat ≤ 2 * q
  lt : 2 * q < 2 * em.mantissa + em.roundBit.toNat + 1
  exact : em.stickyBit = false → 2 * q = 2 * em.mantissa + em.roundBit.toNat
  inexact : em.stickyBit = true → 2 * (em.mantissa : ℚ) + em.roundBit.toNat < 2 * q

theorem mantissa_ofMantissaAndAccuracy (m : ℕ) (a : Accuracy) :
    (ExtendedMantissa.ofMantissaAndAccuracy m a).mantissa = m := by
  unfold ExtendedMantissa.ofMantissaAndAccuracy
  split <;> rfl

theorem stands_exact (m : ℕ) : Stands (.ofMantissaAndAccuracy m .exact) m :=
  ⟨by simp [ExtendedMantissa.ofMantissaAndAccuracy],
    by simp [ExtendedMantissa.ofMantissaAndAccuracy],
    by simp [ExtendedMantissa.ofMantissaAndAccuracy],
    by simp [ExtendedMantissa.ofMantissaAndAccuracy]⟩

theorem Stands.mantissa_le {em : ExtendedMantissa} {q : ℚ} (h : Stands em q) :
    (em.mantissa : ℚ) ≤ q := by
  have hle := h.le
  have hbit : (0 : ℚ) ≤ em.roundBit.toNat := Nat.cast_nonneg _
  linarith

theorem Stands.lt_mantissa_add_one {em : ExtendedMantissa} {q : ℚ} (h : Stands em q) :
    q < em.mantissa + 1 := by
  have hlt := h.lt
  have hbit : (em.roundBit.toNat : ℚ) ≤ 1 := by cases em.roundBit <;> simp
  linarith

theorem Stands.shiftRightOne {em : ExtendedMantissa} {q : ℚ} (h : Stands em q) :
    Stands em.shiftRightOne (q / 2) := by
  obtain ⟨m, r, s⟩ := em
  obtain ⟨hle, hlt, hexact, hinexact⟩ := h
  have hbit : (m % 2 != 0).toNat = m % 2 := by
    obtain h | h := Nat.mod_two_eq_zero_or_one m <;> simp [h]
  have hm : (2 * (m / 2 : ℕ) + (m % 2 : ℕ) : ℚ) = m := by exact_mod_cast Nat.div_add_mod m 2
  have hr : (r.toNat : ℚ) ≤ 1 := by cases r <;> simp
  have hr' : (0 : ℚ) ≤ r.toNat := Nat.cast_nonneg _
  dsimp only at hle hlt hexact hinexact
  refine ⟨?_, ?_, fun hs => ?_, fun hs => ?_⟩ <;>
    simp only [ExtendedMantissa.shiftRightOne, hbit] at *
  · linarith
  · linarith
  · obtain ⟨rfl, rfl⟩ : r = false ∧ s = false := by simpa using hs
    have := hexact rfl
    simp only [Bool.toNat_false, Nat.cast_zero] at this
    linarith
  · -- something follows behind the round bit, or the round bit itself is behind the new one
    obtain rfl | rfl : r = true ∨ s = true := by simpa using hs
    · simp only [Bool.toNat_true, Nat.cast_one] at hle
      linarith
    · have := hinexact rfl
      linarith

theorem Stands.shiftRight {em : ExtendedMantissa} {q : ℚ} (h : Stands em q) (n : ℕ) :
    Stands (em >>> n) (q / 2 ^ n) := by
  induction n with
  | zero => rwa [pow_zero, div_one]
  | succ n ih =>
    rw [pow_succ, ← div_div]
    exact ih.shiftRightOne

theorem Stands.abs_roundedMantissa_sub_le {em : ExtendedMantissa} {q : ℚ} (h : Stands em q) :
    |(em.roundedMantissa : ℚ) - q| ≤ 1 / 2 := by
  obtain ⟨m, r, s⟩ := em
  obtain ⟨hle, hlt, hexact, -⟩ := h
  cases r <;> cases s <;>
    simp only [ExtendedMantissa.roundedMantissa, ExtendedMantissa.accuracy,
      Accuracy.roundToNearestEven, Bool.toNat_false, Bool.toNat_true, Nat.cast_zero,
      Nat.cast_one] at *
  · -- nothing was cut off
    have := hexact trivial
    rw [abs_le]
    constructor <;> linarith
  · -- less than one half was cut off
    rw [abs_le]
    constructor <;> linarith
  · -- a tie goes to one of the neighbours
    have := hexact trivial
    have hmod : ((m % 2 : ℕ) : ℚ) ≤ 1 := by exact_mod_cast Nat.lt_succ_iff.mp (m.mod_lt two_pos)
    have hmod' : (0 : ℚ) ≤ (m % 2 : ℕ) := Nat.cast_nonneg _
    rw [abs_le]
    push_cast at *
    constructor <;> linarith
  · -- more than one half was cut off
    rw [abs_le]
    push_cast
    constructor <;> linarith

/-- A tie goes to the even neighbour. -/
theorem Stands.even_roundedMantissa {em : ExtendedMantissa} {q : ℚ} (h : Stands em q)
    (htie : |(em.roundedMantissa : ℚ) - q| = 1 / 2) : Even em.roundedMantissa := by
  obtain ⟨m, r, s⟩ := em
  obtain ⟨hle, hlt, hexact, hinexact⟩ := h
  cases r <;> cases s <;>
    simp only [ExtendedMantissa.roundedMantissa, ExtendedMantissa.accuracy,
      Accuracy.roundToNearestEven, Bool.toNat_false, Bool.toNat_true, Nat.cast_zero,
      Nat.cast_one] at *
  · have hq : q = m := by linarith [hexact trivial]
    norm_num [hq] at htie
  · have hlow := hinexact trivial
    rw [abs_of_neg (by linarith)] at htie
    linarith
  · show Even (m + m % 2)
    rw [Nat.even_iff]
    omega
  · have hlow := hinexact trivial
    push_cast at htie
    rw [abs_of_pos (by linarith)] at htie
    linarith

/-! ## 2. Rounding to a grid -/

/-- The result is a nearest point on the grid of steps `2 ^ t`, which is the grid of numbers of 24
bits that are as large as `x`.  Of two nearest points it is the even one. -/
structure IsRounding (t : ℤ) (x z : ℚ) : Prop where
  least : -149 ≤ t
  lt : |x| < 2 ^ (t + 24)
  leading : t = -149 ∨ 2 ^ (t + 23) ≤ |x|
  onGrid : ∃ r : ℤ, z = r * 2 ^ t
  near : |z - x| ≤ 2 ^ t / 2
  even : |z - x| = 2 ^ t / 2 → ∃ r : ℤ, Even r ∧ z = r * 2 ^ t

section

variable {t g p : ℤ} {x z : ℚ}

theorem two_zpow_pos (t : ℤ) : (0 : ℚ) < 2 ^ t := zpow_pos two_pos t

theorem two_zpow_le (h : t ≤ g) : (2 : ℚ) ^ t ≤ 2 ^ g := zpow_le_zpow_right₀ one_le_two h

theorem lt_of_two_zpow_lt (h : (2 : ℚ) ^ t < 2 ^ g) : t < g :=
  (zpow_lt_zpow_iff_right₀ one_lt_two).mp h

theorem IsRounding.exponent_le (h : IsRounding t x z) (hp : -125 ≤ p) (hx : |x| < 2 ^ p) :
    t ≤ p - 24 := by
  obtain rfl | hlead := h.leading
  · omega
  · have := lt_of_two_zpow_lt (hlead.trans_lt hx)
    omega

theorem IsRounding.abs_sub_le (h : IsRounding t x z) (hp : -125 ≤ p) (hx : |x| < 2 ^ p) :
    |z - x| ≤ 2 ^ (p - 25) := by
  refine h.near.trans ?_
  have hstep : (2 : ℚ) ^ (p - 25) = 2 ^ (p - 24) / 2 := by
    rw [show p - 24 = p - 25 + 1 by ring, zpow_add_one₀ two_ne_zero]
    ring
  rw [hstep]
  have := two_zpow_le (h.exponent_le hp hx)
  linarith

/-- A point of a coarser grid is one of the finer grid. -/
theorem exists_mul_two_zpow_eq (h : t ≤ g) (j : ℤ) : ∃ i : ℤ, (j * 2 ^ g : ℚ) = i * 2 ^ t := by
  refine ⟨j * 2 ^ (g - t).toNat, ?_⟩
  have hexp : g = (g - t).toNat + t := by omega
  conv_lhs => rw [hexp, zpow_add₀ two_ne_zero, zpow_natCast]
  push_cast
  ring

theorem IsRounding.ge_of_ge (h : IsRounding t x z) (hg : t ≤ g) {j : ℤ} (hj : j * 2 ^ g ≤ x) :
    j * 2 ^ g ≤ z := by
  obtain ⟨i, hi⟩ := exists_mul_two_zpow_eq hg j
  obtain ⟨r, hr⟩ := h.onGrid
  have hpos := two_zpow_pos t
  have hnear := (abs_le.mp h.near).1
  rw [hi] at hj ⊢
  rw [hr] at hnear ⊢
  -- the two points are less than a step apart, or in order
  have hlt : (i : ℚ) < r + 1 := by
    by_contra hle
    have := mul_le_mul_of_nonneg_right (not_lt.mp hle) hpos.le
    linarith
  have hle : i ≤ r := Int.lt_add_one_iff.mp (by exact_mod_cast hlt)
  exact mul_le_mul_of_nonneg_right (by exact_mod_cast hle) hpos.le

/-- A power of two is a point of every grid that it is rounded on. -/
theorem IsRounding.two_zpow_le_of_le (h : IsRounding t x z) (hp : -149 ≤ p) (hx : 2 ^ p ≤ x) :
    2 ^ p ≤ z := by
  by_cases htp : t ≤ p
  · simpa using h.ge_of_ge htp (j := 1) (by simpa using hx)
  · have hpos : 0 < x := (two_zpow_pos p).trans_le hx
    have hlead := h.leading.resolve_left (by omega)
    rw [abs_of_pos hpos] at hlead
    have hge := h.ge_of_ge (g := t + 23) (by omega) (j := 1) (by simpa using hlead)
    rw [Int.cast_one, one_mul] at hge
    exact (two_zpow_le (by omega)).trans hge

theorem IsRounding.neg (h : IsRounding t x z) : IsRounding t (-x) (-z) where
  least := h.least
  lt := by rw [abs_neg]; exact h.lt
  leading := by rw [abs_neg]; exact h.leading
  onGrid := by
    obtain ⟨r, hr⟩ := h.onGrid
    exact ⟨-r, by rw [hr]; push_cast; ring⟩
  near := by
    rw [show -z - -x = -(z - x) by ring, abs_neg]
    exact h.near
  even := by
    rw [show -z - -x = -(z - x) by ring, abs_neg]
    intro htie
    obtain ⟨r, heven, hr⟩ := h.even htie
    exact ⟨-r, heven.neg, by rw [hr]; push_cast; ring⟩

theorem IsRounding.le_of_le (h : IsRounding t x z) (hg : t ≤ g) {j : ℤ} (hj : x ≤ j * 2 ^ g) :
    z ≤ j * 2 ^ g := by
  have hneg := h.neg.ge_of_ge hg (j := -j) (by push_cast; linarith)
  push_cast at hneg
  linarith

/-- Up to the middle behind an even point the result is not behind that point. -/
theorem IsRounding.le_of_le_middle (h : IsRounding t x z) {j : ℤ} (hj : Even j)
    (hx : x ≤ j * 2 ^ t + 2 ^ t / 2) : z ≤ j * 2 ^ t := by
  obtain ⟨r, hr⟩ := h.onGrid
  have hpos := two_zpow_pos t
  have hhigh := (abs_le.mp h.near).2
  by_contra hlt
  rw [hr, not_le] at hlt
  have hjr : j < r := by exact_mod_cast lt_of_mul_lt_mul_right hlt hpos.le
  have hstep : ((j + 1 : ℤ) : ℚ) * 2 ^ t ≤ z := by
    rw [hr]
    exact mul_le_mul_of_nonneg_right (by exact_mod_cast hjr) hpos.le
  push_cast at hstep
  -- so it is the next point, as far away, and an odd one
  have hz : z = ((j + 1 : ℤ) : ℚ) * 2 ^ t := by
    push_cast
    linarith
  obtain ⟨i, hi, hzi⟩ := h.even (by rw [abs_of_pos (by linarith)]; linarith)
  have heq : i = j + 1 := by exact_mod_cast mul_right_cancel₀ hpos.ne' (hzi.symm.trans hz)
  rw [heq] at hi
  exact Int.not_even_iff_odd.mpr hj.add_one hi

theorem IsRounding.ge_of_ge_middle (h : IsRounding t x z) {j : ℤ} (hj : Even j)
    (hx : j * 2 ^ t - 2 ^ t / 2 ≤ x) : j * 2 ^ t ≤ z := by
  have hneg := h.neg.le_of_le_middle hj.neg (by push_cast; linarith)
  push_cast at hneg
  linarith

theorem IsRounding.abs_le_of_lt (h : IsRounding t x z) (hp : -125 ≤ p) (hx : |x| < 2 ^ p) :
    |z| ≤ 2 ^ p := by
  have hg : t ≤ p := (h.exponent_le hp hx).trans (by omega)
  obtain ⟨hlow, hhigh⟩ := abs_lt.mp hx
  have hge := h.ge_of_ge hg (j := -1) (by push_cast; linarith)
  have hle := h.le_of_le hg (j := 1) (by push_cast; linarith)
  push_cast at hge hle
  exact abs_le.mpr ⟨by linarith, by linarith⟩

/-- A point of the grid is not moved. -/
theorem IsRounding.eq_of_eq (h : IsRounding t x z) (hg : t ≤ g) {j : ℤ} (hj : x = j * 2 ^ g) :
    z = x := by
  refine le_antisymm ?_ ?_
  · rw [hj]
    exact h.le_of_le hg hj.le
  · rw [hj]
    exact h.ge_of_ge hg hj.ge

/-- What is a number already is not moved. -/
theorem IsRounding.eq_of_isRounding_self (h : IsRounding t x z) (h' : IsRounding g x x) :
    z = x := by
  have hg : t ≤ g := by
    obtain rfl | hlead := h.leading
    · exact h'.least
    · have := lt_of_two_zpow_lt (hlead.trans_lt h'.lt)
      omega
  obtain ⟨r, hr⟩ := h'.onGrid
  exact h.eq_of_eq hg hr

end

/-! ## 3. Unpacked numbers -/

def unpackedValue : UnpackedFloat → ℚ
  | .finite s m e _ => s.apply m * 2 ^ e
  | _ => 0

@[simp] theorem unpackedValue_zero (s : Sign) : unpackedValue (.zero s) = 0 := rfl

@[simp] theorem unpackedValue_finite (s : Sign) (m : ℕ) (e : ℤ) (h : 0 < m) :
    unpackedValue (.finite s m e h) = s.apply m * 2 ^ e := rfl

/-- The mantissa has 24 bits, and its leading bit is set unless the exponent is the least one. -/
def IsCanonical : UnpackedFloat → Prop
  | .finite _ m e _ => m < 2 ^ 24 ∧ -149 ≤ e ∧ (e = -149 ∨ 2 ^ 23 ≤ m)
  | _ => True

theorem abs_apply_mul (s : Sign) (m : ℕ) (e : ℤ) :
    |((s.apply m : ℤ) : ℚ) * 2 ^ e| = m * 2 ^ e := by
  rw [abs_mul, abs_of_pos (two_zpow_pos e)]
  cases s <;> simp [Sign.apply]

/-- The step of the grid on which `m * 2 ^ e` is rounded. -/
def gridExponent (m : ℕ) (e : ℤ) : ℤ := Format.binary32.targetExponent (totalExponent m e)

theorem gridExponent_eq (m : ℕ) (e : ℤ) :
    gridExponent m e = Max.max ((m.log2 : ℤ) + 1 + e - 24) (-149) := rfl

section

variable {m : ℕ} {e : ℤ} {q : ℚ}

theorem lt_two_zpow_gridExponent (h : q < m + 1) (e : ℤ) :
    q * 2 ^ e < 2 ^ (gridExponent m e + 24) := by
  have hlt : q < 2 ^ ((m.log2 : ℤ) + 1) := by
    refine h.trans_le ?_
    exact_mod_cast Nat.succ_le_of_lt (Nat.lt_log2_self (n := m))
  calc
    q * 2 ^ e < 2 ^ ((m.log2 : ℤ) + 1) * 2 ^ e :=
      mul_lt_mul_of_pos_right hlt (two_zpow_pos e)
    _ = 2 ^ ((m.log2 : ℤ) + 1 + e) := (zpow_add₀ two_ne_zero _ _).symm
    _ ≤ 2 ^ (gridExponent m e + 24) := two_zpow_le (by rw [gridExponent_eq]; omega)

/-- What is rounded reaches the leading bit of its grid, unless that is the finest one. -/
theorem gridExponent_leading (hm : 0 < m ∨ e ≤ -149) (h : m ≤ q) :
    gridExponent m e = -149 ∨ (2 : ℚ) ^ (gridExponent m e + 23) ≤ q * 2 ^ e := by
  by_cases hleast : gridExponent m e = -149
  · exact .inl hleast
  · right
    -- a mantissa of zero is rounded on the finest grid
    have hm : m ≠ 0 := by
      rintro rfl
      rw [gridExponent_eq, Nat.log2_zero] at hleast
      omega
    have hbit : (2 : ℚ) ^ (m.log2 : ℤ) ≤ m := by exact_mod_cast Nat.log2_self_le hm
    have hle := hbit.trans h
    calc
      (2 : ℚ) ^ (gridExponent m e + 23) = 2 ^ (m.log2 : ℤ) * 2 ^ e := by
        rw [← zpow_add₀ two_ne_zero, gridExponent_eq] at *
        congr 1
        omega
      _ ≤ q * 2 ^ e := mul_le_mul_of_nonneg_right hle (two_zpow_pos e).le

theorem shiftToExponent_eq (a : Accuracy) {t : ℤ} (he : e ≤ t) :
    shiftToExponent m e a t =
      (ExtendedMantissa.ofMantissaAndAccuracy m a >>> (t - e).toNat, t) := by
  refine Prod.ext rfl ?_
  show e + ((t - e).toNat : ℤ) = t
  omega

/-- The mantissa of a rounding, as it comes out of the first shift. -/
theorem exists_roundedMantissa {a : Accuracy} (hq : Stands (.ofMantissaAndAccuracy m a) q)
    (hm : 0 < m ∨ e ≤ -149) (he : e ≤ gridExponent m e) :
    ∃ em, shiftToTargetExponent .binary32 m e a = (em, gridExponent m e) ∧
      |(em.roundedMantissa : ℚ) * 2 ^ gridExponent m e - q * 2 ^ e| ≤ 2 ^ gridExponent m e / 2 ∧
      (|(em.roundedMantissa : ℚ) * 2 ^ gridExponent m e - q * 2 ^ e| = 2 ^ gridExponent m e / 2 →
        Even em.roundedMantissa) ∧
      em.roundedMantissa ≤ 2 ^ 24 ∧
      (gridExponent m e = -149 ∨ 2 ^ 23 ≤ em.roundedMantissa) := by
  have hmantissa := mantissa_ofMantissaAndAccuracy m a
  refine ⟨ExtendedMantissa.ofMantissaAndAccuracy m a >>> (gridExponent m e - e).toNat,
    shiftToExponent_eq a he, ?_⟩
  have hlt := lt_two_zpow_gridExponent (hmantissa ▸ hq.lt_mantissa_add_one) e
  have hlead := gridExponent_leading hm (hmantissa ▸ hq.mantissa_le)
  have hnear := (hq.shiftRight (gridExponent m e - e).toNat).abs_roundedMantissa_sub_le
  have heven := (hq.shiftRight (gridExponent m e - e).toNat).even_roundedMantissa
  generalize gridExponent m e = t at *
  generalize ExtendedMantissa.roundedMantissa _ = r at hnear heven ⊢
  have hpos := two_zpow_pos t
  have hsteps : q * 2 ^ e = q / 2 ^ (t - e).toNat * 2 ^ t := by
    have hexp : t = e + (t - e).toNat := by omega
    conv_rhs => rw [hexp, zpow_add₀ two_ne_zero, zpow_natCast]
    rw [← hexp]
    field_simp
  -- everything is counted in steps of the grid from here on
  rw [hsteps] at hlt hlead ⊢
  generalize q / 2 ^ (t - e).toNat = q at *
  rw [zpow_add₀ two_ne_zero, mul_comm (2 ^ t : ℚ)] at hlt hlead
  have hlt : q < 2 ^ 24 := by exact_mod_cast lt_of_mul_lt_mul_right hlt hpos.le
  obtain ⟨hlow, hhigh⟩ := abs_le.mp hnear
  refine ⟨?_, fun htie => ?_, ?_, hlead.imp_right fun h => ?_⟩
  · rw [← sub_mul, abs_mul, abs_of_pos hpos]
    have := mul_le_mul_of_nonneg_right hnear hpos.le
    linarith
  · rw [← sub_mul, abs_mul, abs_of_pos hpos, div_eq_mul_one_div, mul_comm] at htie
    exact heven (mul_left_cancel₀ hpos.ne' htie)
  · have : (r : ℚ) < 2 ^ 24 + 1 := by linarith
    have : r < 2 ^ 24 + 1 := by exact_mod_cast this
    omega
  · have h : (2 : ℚ) ^ 23 ≤ q := by exact_mod_cast le_of_mul_le_mul_right h hpos
    have : (2 : ℚ) ^ 23 < r + 1 := by linarith
    have : 2 ^ 23 < r + 1 := by exact_mod_cast this
    omega

/-- The second shift drops at most one zero. -/
theorem exists_finalMantissa {r : ℕ} {t : ℤ} (hr : r ≤ 2 ^ 24) (ht : -149 ≤ t)
    (hlead : t = -149 ∨ 2 ^ 23 ≤ r) :
    ∃ em n, shiftToTargetExponent .binary32 r t .exact = (em, n) ∧
      (em.mantissa : ℚ) * 2 ^ n = r * 2 ^ t ∧
      em.mantissa < 2 ^ 24 ∧ -149 ≤ n ∧ (n = -149 ∨ 2 ^ 23 ≤ em.mantissa) := by
  obtain rfl | hlt := hr.eq_or_lt
  · -- rounding up has carried into a bit of its own
    have hgrid : gridExponent (2 ^ 24) t = t + 1 := by
      rw [gridExponent_eq, Nat.log2_two_pow]
      omega
    have hshift : shiftToTargetExponent .binary32 (2 ^ 24) t .exact = _ :=
      shiftToExponent_eq .exact (t := gridExponent (2 ^ 24) t) (by omega)
    rw [hgrid, show (t + 1 - t).toNat = 1 by omega] at hshift
    refine ⟨_, _, hshift, ?_, by decide, by omega, .inr (by decide)⟩
    show ((2 ^ 24 / 2 : ℕ) : ℚ) * 2 ^ (t + 1) = ((2 ^ 24 : ℕ) : ℚ) * 2 ^ t
    rw [zpow_add_one₀ two_ne_zero]
    norm_num
    ring
  · have hlog : r.log2 < 24 := by
      obtain rfl | hpos := Nat.eq_zero_or_pos r
      · decide
      · exact log2_lt_of_lt hpos hlt
    have hgrid : (gridExponent r t - t).toNat = 0 := by
      rw [gridExponent_eq]
      omega
    have hshift : shiftToTargetExponent .binary32 r t .exact =
        (⟨r, false, false⟩, t + (0 : ℕ)) := by
      show (ExtendedMantissa.mk r false false >>> (gridExponent r t - t).toNat,
        t + ((gridExponent r t - t).toNat : ℤ)) = _
      rw [hgrid]
      rfl
    rw [Nat.cast_zero, add_zero] at hshift
    exact ⟨_, _, hshift, rfl, hlt, ht, hlead⟩

theorem apply_mul_two_zpow (s : Sign) (k : ℕ) (e : ℤ) :
    ((s.apply k : ℤ) : ℚ) * 2 ^ e = (s.apply 1 : ℤ) * (k * 2 ^ e) := by
  cases s <;> simp [Sign.apply]

theorem abs_apply_one_mul (s : Sign) (x : ℚ) : |((s.apply 1 : ℤ) : ℚ) * x| = |x| := by
  cases s <;> simp [Sign.apply]

theorem roundWithAccuracy_isRounding (s : Sign) {a : Accuracy}
    (hq : Stands (.ofMantissaAndAccuracy m a) q) (hm : 0 < m ∨ e ≤ -149)
    (he : e ≤ gridExponent m e) :
    let u := roundWithAccuracy .binary32 s m e a
    u.isFinite ∧ IsCanonical u ∧
      IsRounding (gridExponent m e) ((s.apply 1 : ℤ) * (q * 2 ^ e)) (unpackedValue u) := by
  intro u
  have hmantissa := mantissa_ofMantissaAndAccuracy m a
  have hnonneg : 0 ≤ q * 2 ^ e :=
    mul_nonneg ((Nat.cast_nonneg _).trans hq.mantissa_le) (two_zpow_pos e).le
  obtain ⟨em, hfirst, hnear, heven, hr, hlead⟩ := exists_roundedMantissa hq hm he
  have hleast : -149 ≤ gridExponent m e := by rw [gridExponent_eq]; omega
  obtain ⟨em', n, hsecond, hvalue, hm', hn, hlead'⟩ := exists_finalMantissa hr hleast hlead
  obtain ⟨hfinite, hcanonical, hlast⟩ : u.isFinite ∧ IsCanonical u ∧
      unpackedValue u = s.apply em'.mantissa * 2 ^ n := by
    rw [show u = _ from roundWithAccuracy_of_shift s hfirst hsecond]
    by_cases h : em'.mantissa = 0
    · rw [dif_pos h, h, unpackedValue_zero]
      exact ⟨rfl, trivial, by cases s <;> simp [Sign.apply]⟩
    · rw [dif_neg h]
      exact ⟨rfl, ⟨hm', hn, hlead'⟩, rfl⟩
  have hround : unpackedValue u = s.apply em.roundedMantissa * 2 ^ gridExponent m e := by
    rw [hlast, apply_mul_two_zpow, hvalue, ← apply_mul_two_zpow]
  refine ⟨hfinite, hcanonical, hleast, ?_, ?_, ⟨_, hround⟩, ?_, ?_⟩
  · rw [abs_apply_one_mul, abs_of_nonneg hnonneg]
    exact lt_two_zpow_gridExponent (hmantissa ▸ hq.lt_mantissa_add_one) e
  · rw [abs_apply_one_mul, abs_of_nonneg hnonneg]
    exact gridExponent_leading hm (hmantissa ▸ hq.mantissa_le)
  · rw [hround, apply_mul_two_zpow, ← mul_sub, abs_apply_one_mul]
    exact hnear
  · rw [hround, apply_mul_two_zpow, ← mul_sub, abs_apply_one_mul]
    intro htie
    refine ⟨s.apply em.roundedMantissa, ?_, (apply_mul_two_zpow s _ _).symm⟩
    have hmantissa : Even (em.roundedMantissa : ℤ) := (Int.even_coe_nat _).mpr (heven htie)
    cases s with
    | positive => exact hmantissa
    | negative => exact hmantissa.neg

end

/-! ## 4. Sums and products -/

/-- A finite result with the value of a rounding. -/
structure IsRounded (x : ℚ) (u : UnpackedFloat) : Prop where
  isFinite : u.isFinite
  isCanonical : IsCanonical u
  isRounding : ∃ t, IsRounding t x (unpackedValue u)

theorem isRounded_roundWithAccuracy (s : Sign) {m : ℕ} {e : ℤ} {q : ℚ} {a : Accuracy}
    (hq : Stands (.ofMantissaAndAccuracy m a) q) (hm : 0 < m ∨ e ≤ -149)
    (he : e ≤ gridExponent m e) :
    IsRounded ((s.apply 1 : ℤ) * (q * 2 ^ e)) (roundWithAccuracy .binary32 s m e a) := by
  obtain ⟨hfinite, hcanonical, hrounding⟩ := roundWithAccuracy_isRounding s hq hm he
  exact ⟨hfinite, hcanonical, _, hrounding⟩

/-- A mantissa from which nothing was cut off yet. -/
theorem isRounded_exact (s : Sign) {m : ℕ} {e : ℤ} (hm : 0 < m) (he : e ≤ gridExponent m e) :
    IsRounded (s.apply m * 2 ^ e) (roundWithAccuracy .binary32 s m e .exact) := by
  rw [apply_mul_two_zpow]
  exact isRounded_roundWithAccuracy s (stands_exact m) (.inl hm) he

theorem isRounded_zero (s : Sign) : IsRounded 0 (.zero s) where
  isFinite := rfl
  isCanonical := trivial
  isRounding := by
    refine ⟨-149, le_rfl, by simp, .inl rfl, ⟨0, by simp⟩, ?_, fun _ => ⟨0, .zero, by simp⟩⟩
    rw [unpackedValue_zero, sub_zero, abs_zero]
    exact (half_pos (two_zpow_pos _)).le

/-- A canonical number is a rounding of itself. -/
theorem IsCanonical.isRounded {u : UnpackedFloat} (h : IsCanonical u) (hu : u.isFinite) :
    IsRounded (unpackedValue u) u := by
  cases u with
  | notANumber | infinity => cases hu
  | zero s => exact isRounded_zero s
  | finite s m e hm =>
    obtain ⟨hlt, hleast, hlead⟩ := h
    refine ⟨hu, ⟨hlt, hleast, hlead⟩, e, hleast, ?_, hlead.imp_right fun h => ?_, ⟨_, rfl⟩, ?_, ?_⟩
    · rw [unpackedValue_finite, abs_apply_mul, add_comm, zpow_add₀ two_ne_zero]
      exact mul_lt_mul_of_pos_right (by exact_mod_cast hlt) (two_zpow_pos e)
    · rw [unpackedValue_finite, abs_apply_mul, add_comm, zpow_add₀ two_ne_zero]
      exact mul_le_mul_of_nonneg_right (by exact_mod_cast h) (two_zpow_pos e).le
    · rw [sub_self, abs_zero]
      exact (half_pos (two_zpow_pos e)).le
    · rw [sub_self, abs_zero]
      exact fun htie => absurd htie (half_pos (two_zpow_pos e)).ne

theorem decreaseExponent_eq (m : ℕ) (e t : ℤ) :
    decreaseExponent m e t = (m * 2 ^ (e - t).toNat, e - (e - t).toNat) := by
  rw [decreaseExponent, Nat.shiftLeft_eq]

theorem mul_two_pow_mul_two_zpow (m : ℚ) (k : ℕ) (e : ℤ) :
    m * 2 ^ k * 2 ^ (e - k) = m * 2 ^ e := by
  rw [mul_assoc, ← zpow_natCast, ← zpow_add₀ two_ne_zero]
  congr 2
  omega

theorem round_isRounded (s : Sign) {m : ℕ} (hm : 0 < m) (e : ℤ) :
    IsRounded (s.apply m * 2 ^ e) (UnpackedFloat.round .binary32 s m e) := by
  have hdecrease := decreaseExponent_eq m e (gridExponent m e)
  generalize hk : (e - gridExponent m e).toNat = k at hdecrease
  have hgrid : gridExponent (m * 2 ^ k) (e - k) = gridExponent m e := by
    rw [gridExponent_eq, gridExponent_eq, log2_mul_two_pow hm]
    push_cast
    congr 1
    ring
  have hround : UnpackedFloat.round .binary32 s m e =
      roundWithAccuracy .binary32 s (m * 2 ^ k) (e - k) .exact := by
    rw [gridExponent] at hdecrease
    simp only [UnpackedFloat.round, hdecrease]
  have hrounded := isRounded_exact s (Nat.mul_pos hm (Nat.two_pow_pos k)) (e := e - k)
    (by rw [hgrid]; omega)
  have hvalue : (s.apply (m * 2 ^ k : ℕ) : ℚ) * 2 ^ (e - k) = s.apply m * 2 ^ e := by
    rw [← mul_two_pow_mul_two_zpow _ k e]
    cases s <;> simp [Sign.apply]
  rw [hvalue] at hrounded
  rwa [hround]

theorem normalize_isRounded (n e : ℤ) :
    IsRounded (n * 2 ^ e) (UnpackedFloat.normalize .binary32 n e .positive) := by
  obtain rfl | ⟨s, m, hm, rfl⟩ := eq_zero_or_eq_apply n
  · rw [Int.cast_zero, zero_mul]
    exact isRounded_zero _
  · rw [normalize_apply s hm]
    exact round_isRounded s hm e

variable {u v : UnpackedFloat}

theorem add_isRounded (hu : u.isFinite) (hu' : IsCanonical u) (hv : v.isFinite)
    (hv' : IsCanonical v) :
    IsRounded (unpackedValue u + unpackedValue v) (UnpackedFloat.add .binary32 u v) := by
  match u, v with
  | .zero s, .zero s' =>
    rw [unpackedValue_zero, unpackedValue_zero, add_zero]
    cases s <;> cases s' <;> exact isRounded_zero _
  | .zero _, .finite s m e hm =>
    have hself := hv'.isRounded hv
    rwa [← zero_add (unpackedValue _)] at hself
  | .finite s m e hm, .zero _ =>
    have hself := hu'.isRounded hu
    rwa [← add_zero (unpackedValue _)] at hself
  | .finite s m e hm, .finite s' m' e' hm' =>
    have hsum : unpackedValue (.finite s m e hm) + unpackedValue (.finite s' m' e' hm') =
        (s.apply (m * 2 ^ (e - Min.min e e').toNat : ℕ) +
          s'.apply (m' * 2 ^ (e' - Min.min e e').toNat : ℕ) : ℤ) * 2 ^ Min.min e e' := by
      have hscale (s : Sign) (m : ℕ) {e t : ℤ} (h : t ≤ e) :
          ((s.apply (m * 2 ^ (e - t).toNat : ℕ) : ℤ) : ℚ) * 2 ^ t = s.apply m * 2 ^ e := by
        rw [← mul_two_pow_mul_two_zpow _ (e - t).toNat e,
          show e - ((e - t).toNat : ℤ) = t by omega]
        cases s <;> simp [Sign.apply]
      rw [Int.cast_add, add_mul, hscale s m (min_le_left e e'), hscale s' m' (min_le_right e e')]
      rfl
    rw [hsum, add_finite, decreaseExponent_eq, decreaseExponent_eq]
    exact normalize_isRounded _ _

theorem apply_mul_apply (s s' : Sign) (m m' : ℤ) :
    (s * s').apply (m * m') = s.apply m * s'.apply m' := by
  cases s <;> cases s'
  · exact (neg_mul_neg m m').symm
  · exact (neg_mul m m').symm
  · exact (mul_neg m m').symm
  · rfl

theorem mul_isRounded (hu : u.isFinite) (hu' : IsCanonical u) (hv : v.isFinite)
    (hv' : IsCanonical v) :
    IsRounded (unpackedValue u * unpackedValue v) (UnpackedFloat.mul .binary32 u v) := by
  match u, v with
  | .zero _, .zero _ | .zero _, .finite _ _ _ _ =>
    rw [unpackedValue_zero, zero_mul]
    exact isRounded_zero _
  | .finite _ _ _ _, .zero _ =>
    rw [unpackedValue_zero, mul_zero]
    exact isRounded_zero _
  | .finite s m e hm, .finite s' m' e' hm' =>
    obtain ⟨-, hleast, hlead⟩ := hu'
    obtain ⟨-, hleast', hlead'⟩ := hv'
    have hpos : 0 < m * m' := Nat.mul_pos hm hm'
    have hgrid : e + e' ≤ gridExponent (m * m') (e + e') := by
      rw [gridExponent_eq]
      -- two numbers of the smallest exponent have a product below the grid
      by_cases hsmall : e = -149 ∧ e' = -149
      · omega
      · have hlarge : 2 ^ 23 ≤ m * m' := by
          obtain h | h : 2 ^ 23 ≤ m ∨ 2 ^ 23 ≤ m' := by omega
          · exact h.trans (Nat.le_mul_of_pos_right m hm')
          · exact h.trans (Nat.le_mul_of_pos_left m' hm)
        have := (Nat.le_log2 (Nat.ne_of_gt hpos)).mpr hlarge
        omega
    have hrounded := isRounded_exact (s * s') hpos hgrid
    have hvalue : ((s * s').apply (m * m' : ℕ) : ℚ) * 2 ^ (e + e') =
        unpackedValue (.finite s m e hm) * unpackedValue (.finite s' m' e' hm') := by
      rw [Nat.cast_mul, apply_mul_apply, zpow_add₀ two_ne_zero, Int.cast_mul, mul_mul_mul_comm]
      rfl
    rwa [hvalue] at hrounded

end ContentCard.Number
