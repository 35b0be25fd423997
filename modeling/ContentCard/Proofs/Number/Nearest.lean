import ContentCard.Proofs.Number.Integers
import ContentCard.Proofs.Number.Scaling

/-!
# The nearest whole number

Rounding gives the nearest whole number, and of two of them the one that is farther from zero.  A
sum of whole numbers is a whole number again, and it is exact as long as 24 bits hold it
(`sumLoss`).
-/

namespace ContentCard.Number

/-! ## 1. Rounding -/

/-- The nearest whole number; a half goes away from zero. -/
def nearest (q : ℚ) : ℤ := if 0 ≤ q then ⌊q + 1 / 2⌋ else ⌈q - 1 / 2⌉

theorem nearest_neg (q : ℚ) : nearest (-q) = -nearest q := by
  obtain hneg | rfl | hpos := lt_trichotomy q 0
  · rw [nearest, nearest, if_pos (by linarith), if_neg (not_le.mpr hneg), ← Int.floor_neg]
    congr 1
    ring
  · norm_num [nearest]
  · rw [nearest, nearest, if_neg (by linarith), if_pos hpos.le, ← Int.ceil_neg]
    congr 1
    ring

theorem nearest_intCast (n : ℤ) : nearest n = n := by
  rw [nearest]
  split
  · rw [Int.floor_intCast_add]
    norm_num
  · rw [sub_eq_add_neg, Int.ceil_intCast_add]
    norm_num

theorem abs_nearest_sub_le (q : ℚ) : |(nearest q : ℚ) - q| ≤ 1 / 2 := by
  rw [nearest, abs_le]
  split
  · have hle := Int.floor_le (q + 1 / 2)
    have hlt := Int.lt_floor_add_one (q + 1 / 2)
    constructor <;> linarith
  · have hle := Int.le_ceil (q - 1 / 2)
    have hlt := Int.ceil_lt_add_one (q - 1 / 2)
    constructor <;> linarith

theorem monotone_nearest : Monotone nearest := by
  intro p q hpq
  rw [nearest, nearest]
  split
  next hp =>
    rw [if_pos (hp.trans hpq)]
    exact Int.floor_mono (by linarith)
  next hp =>
    split
    next hq =>
      -- zero is between them
      have hlow : ⌈p - 1 / 2⌉ ≤ 0 := Int.ceil_le.mpr (by push_cast; linarith)
      have hhigh : 0 ≤ ⌊q + 1 / 2⌋ := Int.floor_nonneg.mpr (by linarith)
      exact hlow.trans hhigh
    next => exact Int.ceil_mono (by linarith)

/-- In halves of its unit a number is rounded by adding one and cutting off the fraction. -/
theorem nearest_natCast_div (m k : ℕ) :
    nearest (m / (2 ^ (k + 1) : ℕ)) = ((m + 2 ^ k) / 2 ^ (k + 1) : ℕ) := by
  have hsum : (m / (2 ^ (k + 1) : ℕ) + 1 / 2 : ℚ) = (m + 2 ^ k : ℕ) / (2 ^ (k + 1) : ℕ) := by
    push_cast
    field_simp
    ring
  rw [nearest, if_pos (by positivity), hsum, Rat.floor_natCast_div_natCast, Int.natCast_ediv]

namespace Dyadic

/-- The bit behind the point tells whether the next whole number is as near. -/
theorem roundedMagnitude_eq {d : Dyadic} (h : d.exponent < 0) {k : ℕ}
    (hk : d.exponent.natAbs = k + 1) :
    (if d.reachesHalf then d.whole + 1 else d.whole) = (d.mantissa + 2 ^ k) / 2 ^ (k + 1) := by
  have hpos := Nat.two_pow_pos k
  simp only [reachesHalf, whole, if_neg (not_le.mpr h), hk, Nat.shiftRight_eq_div_pow, Nat.pow_succ,
    Nat.add_sub_cancel, ← Nat.div_div_eq_div_mul, Nat.add_div_right d.mantissa hpos,
    decide_eq_true h, Bool.true_and, beq_iff_eq]
  generalize d.mantissa / 2 ^ k = q
  split <;> omega

theorem round_eq {d : Dyadic} (h : d.exponent < 0) : d.round = nearest d.value := by
  obtain ⟨k, hk⟩ : ∃ k, d.exponent.natAbs = k + 1 := Nat.exists_eq_succ_of_ne_zero (by omega)
  have hround := nearest_natCast_div d.mantissa k
  rw [round, roundedMagnitude_eq h hk, value_of_exponent_lt h, hk, signed, signed]
  split
  · rw [Int.cast_neg, Int.cast_natCast, neg_div, nearest_neg, hround]
  · rw [Int.cast_natCast, hround]

end Dyadic

theorem value_round {x : Float32} (hx : x.isFinite) :
    (round x).isFinite ∧ value (round x) = nearest (value x) :=
  value_roundedBy (fun _ => Dyadic.round_eq) monotone_nearest nearest_intCast hx

/-- Only finite numbers are rounded. -/
theorem isFinite_of_round {x : Float32} (h : (round x).isFinite) : x.isFinite := by
  by_contra hx
  rw [round, roundedBy, if_neg hx] at h
  exact hx h

/-! ## 2. Sums of whole numbers -/

/-- What a sum of whole numbers may be off by, told from the sum: nothing as long as 24 bits hold
it, and beyond that its last bit. -/
def sumLoss (z : ℚ) : ℚ := if |z| < 2 ^ 24 then 0 else |z| / 2 ^ 24

theorem sumLoss_nonneg (z : ℚ) : 0 ≤ sumLoss z := by
  rw [sumLoss]
  split
  · exact le_rfl
  · positivity

theorem sumLoss_of_small {z : ℚ} (h : |z| < 2 ^ 24) : sumLoss z = 0 := if_pos h

/-- Rounding does not take the leading bit away. -/
theorem IsRounding.two_zpow_le_abs {t g : ℤ} {x z : ℚ} (h : IsRounding t x z) (hg : -149 ≤ g)
    (hx : 2 ^ g ≤ |x|) : 2 ^ g ≤ |z| := by
  obtain hpos | hneg := le_abs.mp hx
  · exact (h.two_zpow_le_of_le hg hpos).trans (le_abs_self z)
  · exact (h.neg.two_zpow_le_of_le hg hneg).trans (neg_le_abs z)

/-- A grid that is finer than the whole numbers has them all, and a coarser one no other. -/
theorem IsRounding.of_whole {t : ℤ} {x z : ℚ} (h : IsRounding t x z) {n : ℤ} (hx : x = n) :
    (∃ m : ℤ, z = m) ∧ |z - x| ≤ sumLoss z := by
  by_cases hfine : t ≤ 0
  · have hexact := h.eq_of_eq hfine (j := n) (by simpa using hx)
    refine ⟨⟨n, hexact.trans hx⟩, ?_⟩
    rw [hexact, sub_self, abs_zero]
    exact sumLoss_nonneg x
  · obtain ⟨k, rfl⟩ : ∃ k : ℕ, t = k + 1 := ⟨(t - 1).toNat, by omega⟩
    obtain ⟨r, hr⟩ := h.onGrid
    have hlead := h.two_zpow_le_abs (by omega) (h.leading.resolve_left (by omega))
    refine ⟨⟨r * 2 ^ (k + 1), ?_⟩, ?_⟩
    · rw [hr]
      push_cast
      norm_cast
    · have hlarge : (2 : ℚ) ^ (24 : ℤ) ≤ |z| := (two_zpow_le (by omega)).trans hlead
      have hstep : (2 : ℚ) ^ ((k : ℤ) + 1 + 23) = 2 ^ ((k : ℤ) + 1) / 2 * 2 ^ 24 := by
        rw [zpow_add₀ two_ne_zero]
        norm_num
        ring
      rw [sumLoss, if_neg (not_lt.mpr (by exact_mod_cast hlarge)), le_div_iff₀ (by norm_num)]
      calc
        |z - x| * 2 ^ 24 ≤ 2 ^ ((k : ℤ) + 1) / 2 * 2 ^ 24 :=
          mul_le_mul_of_nonneg_right h.near (by norm_num)
        _ = 2 ^ ((k : ℤ) + 1 + 23) := hstep.symm
        _ ≤ |z| := hlead

/-- A finite sum of whole numbers is whole, and nearly exact. -/
theorem value_add_whole {x y : Float32} {m n : ℤ} (hx : value x = m) (hy : value y = n)
    (h : (x + y).isFinite) :
    (∃ k : ℤ, value (x + y) = k) ∧ |value (x + y) - (m + n)| ≤ sumLoss (value (x + y)) := by
  obtain ⟨hfinite, hfinite'⟩ := isFinite_of_add h
  obtain ⟨t, ht⟩ := (isRounded_add hfinite hfinite').isRounding
  rw [← value_add h, hx, hy] at ht
  exact ht.of_whole (n := m + n) (by push_cast; rfl)

/-- Half a pixel is lost where an offset is rounded before it is added. -/
theorem value_add_round {x y : Float32} {m : ℤ} (hx : value x = m) (h : (x + round y).isFinite) :
    y.isFinite ∧ (∃ k : ℤ, value (x + round y) = k) ∧
      |value (x + round y) - (value x + value y)| ≤ 1 / 2 + sumLoss (value (x + round y)) := by
  have hy := isFinite_of_round (isFinite_of_add h).2
  have hround := (value_round hy).2
  obtain ⟨hwhole, hsum⟩ := value_add_whole hx hround h
  have hnear := abs_nearest_sub_le (value y)
  refine ⟨hy, hwhole, ?_⟩
  calc
    |value (x + round y) - (value x + value y)|
      = |value (x + round y) - (m + nearest (value y)) + (nearest (value y) - value y)| := by
        rw [hx]
        congr 1
        ring
    _ ≤ |value (x + round y) - (m + nearest (value y))| + |(nearest (value y) : ℚ) - value y| :=
        abs_add_le _ _
    _ ≤ 1 / 2 + sumLoss (value (x + round y)) := by linarith

end ContentCard.Number
