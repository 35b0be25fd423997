import ContentCard.Proofs.Number.Thresholds

/-!
# Narrowing

A number of 64 bits is narrowed to the rounding of what it stands for.
-/

namespace ContentCard.Number

open Float.Model (Format UnpackedFloat)
open Float.Model.UnpackedFloat

/-! ## 1. Fractions of powers of ten -/

section

variable {m k : ℕ}

theorem value_toUInt64_toFloat32 (hm : m < 2 ^ 23) :
    m.toUInt64.toFloat32.isFinite ∧ value m.toUInt64.toFloat32 = m := by
  have hunpack := unpack_toUInt64_toFloat32 hm
  refine ⟨?_, ?_⟩
  · show m.toUInt64.toFloat32.toModel.unpack.isFinite
    rw [hunpack]
    exact isFinite_whole m
  · rw [value, hunpack, unpackedValue_whole (by omega), Int.cast_natCast]

/-- The powers of ten with at most 24 bits before their zeros. -/
theorem value_powerOfTen (hk : k < Float32.exactlyRepresentablePowersOfTen.size) :
    Float32.exactlyRepresentablePowersOfTen[k].isFinite ∧
      value Float32.exactlyRepresentablePowersOfTen[k] = 10 ^ k := by
  have htable : ∀ i : Fin 11, ∃ hi : i.val < Float32.exactlyRepresentablePowersOfTen.size,
      let d := Dyadic.ofFloat32 Float32.exactlyRepresentablePowersOfTen[i.val]
      Float32.exactlyRepresentablePowersOfTen[i.val].isFinite ∧ d.negative = false ∧
        -23 ≤ d.exponent ∧ d.mantissa * 2 ^ (d.exponent + 23).toNat = 10 ^ i.val * 2 ^ 23 := by
    decide
  obtain ⟨_, hentry⟩ := htable ⟨k, hk⟩
  dsimp only at hentry
  obtain ⟨hfinite, hnegative, hexponent, hmantissa⟩ := hentry
  refine ⟨hfinite, ?_⟩
  rw [← value_ofFloat32 hfinite, Dyadic.value, Dyadic.signed, hnegative, if_neg Bool.false_ne_true]
  generalize Dyadic.ofFloat32 _ = d at hexponent hmantissa ⊢
  have hcast : (d.mantissa : ℚ) * 2 ^ (d.exponent + 23).toNat = 10 ^ k * 2 ^ 23 := by
    exact_mod_cast hmantissa
  have hpow : (2 : ℚ) ^ (d.exponent + 23).toNat = 2 ^ d.exponent * 2 ^ 23 := by
    rw [← zpow_natCast, Int.toNat_of_nonneg (by omega), zpow_add₀ two_ne_zero]
    norm_num
  rw [hpow, ← mul_assoc] at hcast
  rw [Int.cast_natCast]
  exact mul_right_cancel₀ (by norm_num) hcast

theorem isRounded_ofScientific_neg (hm : 0 < m) (hk : 0 < k) (hlog : k ≤ 2 ^ 8 + m.log2) :
    IsRounded (m / 10 ^ k) (UnpackedFloat.ofScientific .binary32 m (-k)) := by
  have hpos : 0 < 10 ^ k := Nat.pow_pos (by decide)
  have hne : unpackedValue (.finite .positive (10 ^ k) 0 hpos) ≠ 0 := by
    rw [unpackedValue_finite]
    simp [Sign.apply]
  have hquotient := div_isRounded (u := .finite .positive m 0 hm) rfl rfl hne
  have hvalue : unpackedValue (.finite .positive m 0 hm) /
      unpackedValue (.finite .positive (10 ^ k) 0 hpos) = (m / 10 ^ k : ℚ) := by
    rw [unpackedValue_finite, unpackedValue_finite]
    simp [Sign.apply]
  have hten : UnpackedFloat.finite .positive (10 ^ (-(-k : ℤ)).toNat) 0
      (Nat.pow_pos (by decide)) = .finite .positive (10 ^ k) 0 hpos := by
    rw [UnpackedFloat.finite.injEq, neg_neg, Int.toNat_natCast]
    exact ⟨rfl, rfl, rfl⟩
  have habove : ¬(-k : ℤ) > 2 ^ Format.binary32.exponentBits := by
    show ¬(-k : ℤ) > 2 ^ 8
    omega
  have hbelow : ¬(-k : ℤ) < -(2 ^ Format.binary32.exponentBits + m.log2) := by
    show ¬(-k : ℤ) < -(2 ^ 8 + m.log2)
    omega
  rw [hvalue] at hquotient
  rwa [UnpackedFloat.ofScientific, dif_neg hm.ne', if_neg habove, if_neg hbelow,
    if_neg (by omega), hten]

theorem rounds_ofScientific_neg (hk : 0 < k) (hlog : 0 < m → k ≤ 2 ^ 8 + m.log2) :
    Rounds (m / 10 ^ k) (Float32.ofScientific m true k) := by
  rw [Float32.ofScientific]
  split
  next hsmall =>
    obtain ⟨hfinite, hvalue⟩ := value_toUInt64_toFloat32 hsmall.1
    obtain ⟨hfinite', hvalue'⟩ := value_powerOfTen (k := k) (Nat.lt_succ_of_le hsmall.2)
    have hquotient := Rounds.div hfinite hfinite' (by rw [hvalue']; positivity)
    rwa [hvalue, hvalue'] at hquotient
  next hlarge =>
    have hexponent : (if true = true then Int.negOfNat k else Int.ofNat k) = -k :=
      Int.negOfNat_eq
    obtain rfl | hm := Nat.eq_zero_or_pos m
    · rw [Nat.cast_zero, zero_div]
      exact .of_isRounded (isRounded_zero .positive) rfl
    · refine .of_isRounded (isRounded_ofScientific_neg hm hk (hlog hm)) ?_
      rw [← hexponent]
      rfl

end

/-! ## 2. Dyadic numbers -/

section

variable {q : ℚ} {x : Float32}

theorem Rounds.neg (h : Rounds q x) : Rounds (-q) (-x) := by
  cases h with
  | finite hx t ht =>
    obtain ⟨hfinite, hvalue⟩ := value_neg hx
    exact .finite hfinite t (hvalue ▸ ht.neg)
  | above hq hx =>
    refine .below (by linarith) ?_
    rw [eq_infinite_positive hx]
    rfl
  | below hq hx =>
    refine .above (by linarith) ?_
    rw [eq_infinite_negative hx]
    rfl

end

/-- The decimal fraction of a dyadic number has its zeros in front of enough digits. -/
theorem le_log2_mul_five_pow {m : ℕ} (hm : 0 < m) (k : ℕ) : k ≤ (m * 5 ^ k).log2 := by
  have hpos : m * 5 ^ k ≠ 0 := (Nat.mul_pos hm (Nat.pow_pos (by decide))).ne'
  rw [Nat.le_log2 hpos]
  calc
    2 ^ k ≤ 5 ^ k := Nat.pow_le_pow_left (by decide) k
    _ ≤ m * 5 ^ k := Nat.le_mul_of_pos_left _ hm

theorem Dyadic.rounds_toFloat32 (d : Dyadic) : Rounds d.value d.toFloat32 := by
  obtain ⟨negative, m, e⟩ := d
  have hmagnitude : Rounds (m * 2 ^ e)
      (if 0 ≤ e then Float32.ofScientific (m <<< e.natAbs) false 0
      else Float32.ofScientific (m * Nat.pow 5 e.natAbs) true e.natAbs) := by
    split
    next he =>
      have hvalue : (m * 2 ^ e : ℚ) = (m <<< e.natAbs : ℕ) := by
        have hcast : e = e.natAbs := by omega
        rw [Nat.shiftLeft_eq, hcast, zpow_natCast, Int.natAbs_natCast]
        push_cast
        rfl
      rw [hvalue]
      exact rounds_ofNat _
    next he =>
      have hvalue : (m * 2 ^ e : ℚ) = (m * 5 ^ e.natAbs : ℕ) / 10 ^ e.natAbs := by
        have hcast : e = -(e.natAbs : ℤ) := by omega
        have hten : (10 : ℚ) ^ e.natAbs = 2 ^ e.natAbs * 5 ^ e.natAbs := by
          rw [← mul_pow]
          norm_num
        rw [hten, hcast, zpow_neg, zpow_natCast, Int.natAbs_neg, Int.natAbs_natCast]
        push_cast
        field_simp
      rw [hvalue]
      refine rounds_ofScientific_neg (by omega) fun hpos => ?_
      have hlog := le_log2_mul_five_pow (Nat.pos_of_mul_pos_right hpos) e.natAbs
      exact Nat.le_add_left_of_le hlog
  cases negative with
  | false =>
    have hvalue : value ⟨false, m, e⟩ = m * 2 ^ e := by simp [value, signed]
    rw [hvalue]
    exact hmagnitude
  | true =>
    have hvalue : value ⟨true, m, e⟩ = -(m * 2 ^ e) := by simp [value, signed]
    rw [hvalue]
    exact hmagnitude.neg

/-! ## 3. Numbers of 64 bits -/

/-- What a finite number of 64 bits stands for. -/
def doubleValue (x : Float) : ℚ := (Dyadic.ofFloat x).value

theorem rounds_narrow {x : Float} (hx : x.isFinite) : Rounds (doubleValue x) (narrow x) := by
  rw [narrow, if_pos hx]
  exact (Dyadic.ofFloat x).rounds_toFloat32

end ContentCard.Number
