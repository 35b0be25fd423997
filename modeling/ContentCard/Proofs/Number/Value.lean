import ContentCard.Proofs.Number.Order
import ContentCard.Proofs.Number.Rounding

/-!
# The value of a number

Sums and products of finite numbers are roundings of what they stand for, unless they are too large
for a finite number.  Finite numbers are in the order of their values.
-/

namespace ContentCard.Number

open Float.Model (Format UnpackedFloat)
open Float.Model.UnpackedFloat

/-! ## 1. Unpacking -/

theorem isCanonical_unpack_bits (b : BitVec Format.binary32.numBits) :
    IsCanonical (unpack .binary32 b) := by
  have hmantissa := (unpackMantissa b).isLt
  change _ < 2 ^ 23 at hmantissa
  by_cases hlast : unpackExponent b = -1#_
  · rw [unpack_of_last hlast]
    split <;> trivial
  by_cases hfirst : unpackExponent b = 0#_
  · by_cases hm : unpackMantissa b = 0#_
    · rw [unpack_of_zero hfirst hm]
      trivial
    · rw [unpack_of_subnormal hfirst hm]
      exact ⟨hmantissa.trans (by decide), le_refl _, .inl rfl⟩
  · have hexponent := BitVec.toNat_pos_of_ne_zero hfirst
    rw [unpack_of_normal hfirst hlast (Nat.add_pos_left (Nat.two_pow_pos _) _)]
    refine ⟨?_, ?_, .inr (Nat.le_add_right _ _)⟩
    · show 2 ^ 23 + _ < _
      omega
    · show -149 ≤ ((unpackExponent b).toNat : ℤ) - (127 + 23)
      omega

theorem isCanonical_unpack (x : Float32) : IsCanonical x.toModel.unpack :=
  isCanonical_unpack_bits _

theorem unpack_pack_subnormal (s : Sign) {m : ℕ} (hm : 0 < m) (hlt : m < 2 ^ 23) :
    (Float32.Model.pack (.finite s m (-149) hm)).unpack = .finite s m (-149) hm := by
  obtain ⟨v, rfl⟩ : ∃ v : BitVec 23, m = v.toNat :=
    ⟨BitVec.ofNat 23 m, by rw [BitVec.toNat_ofNat, Nat.mod_eq_of_lt hlt]⟩
  have hv : v ≠ 0#23 := by
    rintro rfl
    exact absurd hm (by decide)
  show unpack .binary32 (pack .binary32 _) = _
  rw [pack_subnormal s v hm, unpack_of_subnormal unpackExponent_packComponents
      (by rwa [unpackMantissa_packComponents]), UnpackedFloat.finite.injEq,
    unpackSign_packComponents, unpackMantissa_packComponents, ofBitVec_toBitVec]
  exact ⟨rfl, rfl, rfl⟩

theorem unpack_pack_finite (s : Sign) {m : ℕ} {e : ℤ} (hm : 0 < m)
    (h : IsCanonical (.finite s m e hm)) :
    (Float32.Model.pack (.finite s m e hm)).unpack =
      if e ≤ 104 then .finite s m e hm else .infinity s := by
  obtain ⟨hlt, hleast, hlead⟩ := h
  by_cases hnormal : 2 ^ 23 ≤ m
  · have hlog : m.log2 = 23 := (Nat.log2_eq_iff (Nat.ne_of_gt hm)).mpr ⟨hnormal, hlt⟩
    by_cases he : e ≤ 104
    · rw [if_pos he]
      exact unpack_pack_normal s m e hm hlog hleast he
    · have hbias : 2 ^ Format.binary32.exponentBits ≤
          (e + (Format.binary32.exponentBias : ℤ) +
            (Format.binary32.mantissaBitsWithoutImplicit : ℤ)).toNat + 1 := by
        show 2 ^ 8 ≤ (e + (127 : ℕ) + (23 : ℕ)).toNat + 1
        omega
      show unpack .binary32 (pack .binary32 _) = _
      rw [pack_of_large s hm hbias, if_neg he]
      cases s <;> rfl
  · obtain rfl : e = -149 := hlead.resolve_right hnormal
    rw [if_pos (by decide)]
    exact unpack_pack_subnormal s hm (by omega)

/-- A finite number comes back as it was, unless it is too large to be packed. -/
theorem IsCanonical.unpack_pack {u : UnpackedFloat} (h : IsCanonical u) (hu : u.isFinite) :
    (Float32.Model.pack u).unpack = u ∨ 2 ^ 128 ≤ |unpackedValue u| := by
  cases u with
  | notANumber | infinity => cases hu
  | zero s => cases s <;> exact .inl rfl
  | finite s m e hm =>
    rw [unpack_pack_finite s hm h]
    by_cases he : e ≤ 104
    · exact .inl (if_pos he)
    · obtain ⟨-, -, hlead⟩ := h
      right
      have hm' : (2 : ℚ) ^ 23 ≤ m := by exact_mod_cast hlead.resolve_left (by omega)
      rw [unpackedValue_finite, abs_apply_mul]
      calc
        (2 : ℚ) ^ 128 = (2 : ℚ) ^ 23 * (2 : ℚ) ^ (105 : ℤ) := by norm_num
        _ ≤ (m : ℚ) * 2 ^ e :=
          mul_le_mul hm' (two_zpow_le (by omega)) (two_zpow_pos _).le (Nat.cast_nonneg m)

/-! ## 2. Values -/

/-- What a finite number stands for. -/
def value (x : Float32) : ℚ := unpackedValue x.toModel.unpack

@[simp] theorem value_zero : value 0 = 0 := rfl

variable {x y : Float32}

theorem isRounded_unpack (hx : x.isFinite) : IsRounded (value x) x.toModel.unpack :=
  (isCanonical_unpack x).isRounded hx

namespace IsRounded

variable {u : UnpackedFloat} {q : ℚ} (h : IsRounded q u) (hx : x = .ofModel (.pack u))

include h hx

/-- The result of an operation, packed. -/
theorem isRounding_value (hq : |q| < 2 ^ 127) : x.isFinite ∧ ∃ t, IsRounding t q (value x) := by
  obtain ⟨hfinite, hcanonical, t, hrounding⟩ := h
  obtain hsame | hlarge := hcanonical.unpack_pack hfinite
  · have hx' : x.toModel.unpack = u := by rw [hx]; exact hsame
    refine ⟨?_, t, ?_⟩
    · show x.toModel.unpack.isFinite
      rwa [hx']
    · rwa [value, hx']
  · have hle := hrounding.abs_le_of_lt (p := 127) (by decide) (by exact_mod_cast hq)
    have : (2 : ℚ) ^ 128 ≤ 2 ^ 127 := hlarge.trans (by exact_mod_cast hle)
    norm_num at this

/-- What is the value of a number already is kept. -/
theorem value_eq (hy : y.isFinite) (hq : q = value y) (hlarge : |value y| < 2 ^ 127) :
    x.isFinite ∧ value x = value y := by
  rw [hq] at h
  obtain ⟨hfinite, t, ht⟩ := h.isRounding_value hx hlarge
  obtain ⟨g, hg⟩ := (isRounded_unpack hy).isRounding
  exact ⟨hfinite, ht.eq_of_isRounding_self hg⟩

end IsRounded

section

variable (hx : x.isFinite) (hy : y.isFinite)

include hx hy

theorem isRounded_add :
    IsRounded (value x + value y) (UnpackedFloat.add .binary32 x.toModel.unpack y.toModel.unpack) :=
  add_isRounded hx (isCanonical_unpack x) hy (isCanonical_unpack y)

theorem isRounded_mul :
    IsRounded (value x * value y) (UnpackedFloat.mul .binary32 x.toModel.unpack y.toModel.unpack) :=
  mul_isRounded hx (isCanonical_unpack x) hy (isCanonical_unpack y)

end

/-! ## 3. The order of values -/

theorem mul_two_zpow_lt {m m' : ℕ} {e e' : ℤ} (hm : m < 2 ^ 24) (hleast : -149 ≤ e)
    (hlead : e' = -149 ∨ 2 ^ 23 ≤ m') (h : e < e' ∨ e = e' ∧ m < m') :
    (m : ℚ) * 2 ^ e < m' * 2 ^ e' := by
  obtain h | ⟨rfl, h⟩ := h
  · have hm' : (2 : ℚ) ^ 23 ≤ m' := by exact_mod_cast hlead.resolve_left (by omega)
    calc
      (m : ℚ) * 2 ^ e < 2 ^ 24 * 2 ^ e :=
        mul_lt_mul_of_pos_right (by exact_mod_cast hm) (two_zpow_pos e)
      _ = (2 : ℚ) ^ 23 * (2 : ℚ) ^ (e + 1) := by
        rw [zpow_add_one₀ two_ne_zero]
        ring
      _ ≤ (m' : ℚ) * 2 ^ e' :=
        mul_le_mul hm' (two_zpow_le (by omega)) (two_zpow_pos _).le (Nat.cast_nonneg m')
  · exact mul_lt_mul_of_pos_right (by exact_mod_cast h) (two_zpow_pos e)

/-- Ranks are in the order of values. -/
theorem unpackedValue_lt {u v : UnpackedFloat} (hu : IsCanonical u) (hu' : u.isFinite)
    (hv : IsCanonical v) (hv' : v.isFinite) {i j : ℤ ×ₗ ℤ ×ₗ ℤ} (hi : i ∈ unpackedRank u)
    (hj : j ∈ unpackedRank v) (hij : i < j) : unpackedValue u < unpackedValue v := by
  have hpos {m : ℕ} (hm : 0 < m) (e : ℤ) : 0 < (m : ℚ) * 2 ^ e :=
    mul_pos (by exact_mod_cast hm) (two_zpow_pos e)
  match u, v with
  | .zero _, .zero _ =>
    obtain rfl := Option.some.inj hi
    obtain rfl := Option.some.inj hj
    exact absurd hij (lt_irrefl _)
  | .zero _, .finite .positive m e hm | .finite .negative m e hm, .zero _ =>
    rw [unpackedValue_zero, unpackedValue_finite]
    simpa [Sign.apply] using hpos hm e
  | .finite .negative m e hm, .finite .positive m' e' hm' =>
    have := hpos hm e
    have := hpos hm' e'
    rw [unpackedValue_finite, unpackedValue_finite, Sign.apply, Sign.apply]
    push_cast
    linarith
  | .zero _, .finite .negative m e hm | .finite .positive m e hm, .zero _
  | .finite .positive m e hm, .finite .negative m' e' hm' =>
    obtain rfl := Option.some.inj hi
    obtain rfl := Option.some.inj hj
    simp [Prod.Lex.toLex_lt_toLex] at hij
  | .finite .positive m e hm, .finite .positive m' e' hm' =>
    obtain rfl := Option.some.inj hi
    obtain rfl := Option.some.inj hj
    simp only [Prod.Lex.toLex_lt_toLex, lt_irrefl, true_and, false_or, Nat.cast_lt] at hij
    exact mul_two_zpow_lt hu.1 hu.2.1 hv.2.2 hij
  | .finite .negative m e hm, .finite .negative m' e' hm' =>
    obtain rfl := Option.some.inj hi
    obtain rfl := Option.some.inj hj
    simp only [Prod.Lex.toLex_lt_toLex, lt_irrefl, true_and, false_or, neg_lt_neg_iff, neg_inj,
      Nat.cast_lt] at hij
    have := mul_two_zpow_lt hv.1 hv.2.1 hu.2.2 (hij.imp_right fun h => ⟨h.1.symm, h.2⟩)
    rw [unpackedValue_finite, unpackedValue_finite, Sign.apply, Sign.apply]
    push_cast
    linarith

/-- The value can be read off the rank. -/
theorem unpackedValue_of_rank {u : UnpackedFloat} {k e m : ℤ}
    (h : toLex (k, toLex (e, m)) ∈ unpackedRank u) : unpackedValue u = m * 2 ^ (k * e) := by
  match u with
  | .zero _ | .infinity .negative | .infinity .positive =>
    obtain ⟨rfl, hrest⟩ := Prod.mk.inj (toLex_inj.mp (Option.some.inj h))
    obtain ⟨rfl, rfl⟩ := Prod.mk.inj (toLex_inj.mp hrest)
    show (0 : ℚ) = _
    simp
  | .finite .negative _ _ _ | .finite .positive _ _ _ =>
    obtain ⟨rfl, hrest⟩ := Prod.mk.inj (toLex_inj.mp (Option.some.inj h))
    obtain ⟨rfl, rfl⟩ := Prod.mk.inj (toLex_inj.mp hrest)
    rw [unpackedValue_finite]
    simp [Sign.apply]

theorem lt_iff_value_lt (hx : x.isFinite) (hy : y.isFinite) : x < y ↔ value x < value y := by
  have hlt {x y : Float32} (hx : x.isFinite) (hy : y.isFinite) {i j} (hi : i ∈ rank x)
      (hj : j ∈ rank y) (hij : i < j) : value x < value y :=
    unpackedValue_lt (isCanonical_unpack x) hx (isCanonical_unpack y) hy hi hj hij
  obtain ⟨i, hi⟩ := exists_rank_iff.mpr (isNaN_of_isFinite hx)
  obtain ⟨j, hj⟩ := exists_rank_iff.mpr (isNaN_of_isFinite hy)
  rw [lt_iff]
  constructor
  · rintro ⟨i, hi, j, hj, hij⟩
    exact hlt hx hy hi hj hij
  · intro hvalue
    obtain hij | rfl | hij := lt_trichotomy i j
    · exact ⟨i, hi, j, hj, hij⟩
    · exact absurd ((unpackedValue_of_rank hi).trans (unpackedValue_of_rank hj).symm) hvalue.ne
    · exact absurd (hlt hy hx hj hi hij) hvalue.asymm

theorem beq_iff_value_eq (hx : x.isFinite) (hy : y.isFinite) :
    (x == y) = true ↔ value x = value y := by
  rw [beq_iff]
  constructor
  · rintro ⟨i, hi, hj⟩
    exact (unpackedValue_of_rank hi).trans (unpackedValue_of_rank hj).symm
  · intro hvalue
    obtain ⟨i, hi⟩ := exists_rank_iff.mpr (isNaN_of_isFinite hx)
    obtain ⟨j, hj⟩ := exists_rank_iff.mpr (isNaN_of_isFinite hy)
    have hle : ¬x < y := fun h => hvalue.not_lt ((lt_iff_value_lt hx hy).mp h)
    have hge : ¬y < x := fun h => hvalue.not_gt ((lt_iff_value_lt hy hx).mp h)
    obtain hij | rfl | hij := lt_trichotomy i j
    · exact absurd (lt_iff.mpr ⟨i, hi, j, hj, hij⟩) hle
    · exact ⟨i, hi, hj⟩
    · exact absurd (lt_iff.mpr ⟨j, hj, i, hi, hij⟩) hge

/-! ## 4. Whole numbers -/

theorem unpackedValue_whole {n : ℤ} (hn : n.natAbs < 2 ^ 24) : unpackedValue (whole n) = n := by
  obtain rfl | ⟨s, m, hm, rfl⟩ := eq_zero_or_eq_apply n
  · exact (unpackedValue_zero _).trans Int.cast_zero.symm
  · rw [natAbs_apply] at hn
    have hlog := log2_lt_of_lt hm hn
    have hexp : (m.log2 : ℤ) - 23 = 0 - (23 - m.log2 : ℕ) := by omega
    have hscale := mul_two_pow_mul_two_zpow (s.apply m : ℤ) (23 - m.log2) 0
    rw [zpow_zero, mul_one] at hscale
    rw [whole_apply s hm, unpackedValue_finite, hexp, ← hscale]
    cases s <;> simp [Sign.apply]

theorem isFinite_ofNat {n : ℕ} (hn : n < 2 ^ 23) : (Float32.ofNat n).isFinite := by
  show (Float32.ofNat n).toModel.unpack.isFinite
  rw [unpack_ofNat hn]
  exact isFinite_whole n

theorem value_ofNat {n : ℕ} (hn : n < 2 ^ 23) : value (Float32.ofNat n) = n := by
  rw [value, unpack_ofNat hn, unpackedValue_whole (by omega), Int.cast_natCast]

theorem value_half : value 0.5 = 1 / 2 := by
  show ((2 ^ 23 : ℕ) : ℤ) * (2 : ℚ) ^ (-24 : ℤ) = 1 / 2
  norm_num

theorem zero_add_exact (hx : x.isFinite) (h : |value x| < 2 ^ 127) :
    (0 + x).isFinite ∧ value (0 + x) = value x :=
  (isRounded_add (x := 0) rfl hx).value_eq rfl hx (by rw [value_zero, zero_add]) h

theorem one_mul_exact (hx : x.isFinite) (h : |value x| < 2 ^ 127) :
    (Float32.ofNat 1 * x).isFinite ∧ value (Float32.ofNat 1 * x) = value x := by
  have hone : value (Float32.ofNat 1) = (1 : ℕ) := value_ofNat (by decide)
  exact (isRounded_mul (isFinite_ofNat (n := 1) (by decide)) hx).value_eq rfl hx
    (by rw [hone, Nat.cast_one, one_mul]) h

theorem zero_max_value (hx : x.isFinite) :
    (max 0 x).isFinite ∧ value (max 0 x) = Max.max 0 (value x) := by
  rw [max, if_neg (by decide)]
  split
  next h =>
    rw [lt_iff_value_lt rfl hx, value_zero] at h
    exact ⟨hx, (max_eq_right h.le).symm⟩
  next h =>
    rw [lt_iff_value_lt rfl hx, value_zero] at h
    exact ⟨rfl, (max_eq_left (not_lt.mp h)).symm⟩

end ContentCard.Number
