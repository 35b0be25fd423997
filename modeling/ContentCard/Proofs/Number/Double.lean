import ContentCard.Proofs.Number.Narrowing

/-!
# Whole numbers in 64 bits

A whole number of 64 bits may lose its last bits when it becomes a number, but it keeps its size:
its leading bit stays where it is, or a carry moves it up by one.
-/

namespace ContentCard.Number

open Float.Model (Format UnpackedFloat totalExponent)
open Float.Model.UnpackedFloat

/-! ## 1. The leading bit -/

/-- The mantissa has 53 bits, and the first one stands for `2 ^ p`. -/
def Leads (s : Sign) (p : ℤ) (u : UnpackedFloat) : Prop :=
  ∃ m e h, u = .finite s m e h ∧ m.log2 = 52 ∧ e + 52 = p

section

variable {s : Sign} {m : ℕ} {e p : ℤ} {u : UnpackedFloat}

theorem targetExponent_binary64 (h : -1022 ≤ (m.log2 : ℤ) + e) :
    Format.binary64.targetExponent (totalExponent m e) = m.log2 + e - 52 := by
  show Max.max ((m.log2 : ℤ) + 1 + e - 53) (-1074) = _
  omega

/-- Nothing is left to shift but the bit of a carry. -/
theorem exists_carried {r : ℕ} (hlow : 2 ^ 52 ≤ r) (hhigh : r ≤ 2 ^ 53) (he : -1074 ≤ e) :
    ∃ em t, shiftToTargetExponent .binary64 r e .exact = (em, t) ∧
      em.mantissa.log2 = 52 ∧ (t = e ∨ t = e + 1) := by
  obtain rfl | hlt := hhigh.eq_or_lt
  · -- the carry is a power of two, so the bit that goes is a zero
    have htarget : Format.binary64.targetExponent (totalExponent (2 ^ 53) e) = e + 1 := by
      rw [targetExponent_binary64] <;> rw [Nat.log2_two_pow] <;> omega
    have hshift : shiftToTargetExponent .binary64 (2 ^ 53) e .exact = _ :=
      shiftToExponent_eq .exact (t := _) (by rw [htarget]; omega)
    rw [htarget, show (e + 1 - e).toNat = 1 by omega] at hshift
    exact ⟨_, _, hshift, by decide, .inr rfl⟩
  · have hlog : r.log2 = 52 := (Nat.log2_eq_iff (by omega)).mpr ⟨hlow, hlt⟩
    have htarget : Format.binary64.targetExponent (totalExponent r e) = e := by
      rw [targetExponent_binary64] <;> rw [hlog] <;> omega
    have hshift : shiftToTargetExponent .binary64 r e .exact = _ :=
      shiftToExponent_eq .exact (t := _) htarget.ge
    rw [htarget, Int.sub_self] at hshift
    exact ⟨_, _, hshift, hlog, .inl rfl⟩

/-- Shifted to 53 bits and rounded, a mantissa has 53 bits or is the carry behind them. -/
theorem roundedMantissa_between (hm : 52 ≤ m.log2) :
    let em := ExtendedMantissa.ofMantissaAndAccuracy m .exact >>> (m.log2 - 52)
    2 ^ 52 ≤ em.roundedMantissa ∧ em.roundedMantissa ≤ 2 ^ 53 := by
  intro em
  have hpos : m ≠ 0 := by
    rintro rfl
    exact absurd hm (by decide)
  obtain ⟨hnear, hnear'⟩ :=
    abs_le.mp ((stands_exact m).shiftRight (m.log2 - 52)).abs_roundedMantissa_sub_le
  change _ ≤ (em.roundedMantissa : ℚ) - _ at hnear
  change (em.roundedMantissa : ℚ) - _ ≤ _ at hnear'
  -- what is rounded has exactly 53 bits before its point
  have hlow : (2 : ℚ) ^ 52 ≤ m / 2 ^ (m.log2 - 52) := by
    rw [le_div_iff₀ (by positivity), ← pow_add, Nat.add_sub_cancel' hm]
    exact_mod_cast Nat.log2_self_le hpos
  have hhigh : (m / 2 ^ (m.log2 - 52) : ℚ) < 2 ^ 53 := by
    rw [div_lt_iff₀ (by positivity), ← pow_add, show 53 + (m.log2 - 52) = m.log2 + 1 by omega]
    exact_mod_cast Nat.lt_log2_self
  have hlow' : (2 : ℚ) ^ 52 < em.roundedMantissa + 1 := by linarith
  have hhigh' : (em.roundedMantissa : ℚ) < 2 ^ 53 + 1 := by linarith
  exact ⟨Nat.le_of_lt_succ (by exact_mod_cast hlow'), Nat.le_of_lt_succ (by exact_mod_cast hhigh')⟩

theorem leads_roundWithAccuracy (s : Sign) (hm : 52 ≤ m.log2) (he : -1022 ≤ (m.log2 : ℤ) + e) :
    ∃ p, (p = m.log2 + e ∨ p = m.log2 + e + 1) ∧
      Leads s p (roundWithAccuracy .binary64 s m e .exact) := by
  have htarget := targetExponent_binary64 he
  have hfirst : shiftToTargetExponent .binary64 m e .exact = _ :=
    shiftToExponent_eq .exact (t := _) (by rw [htarget]; omega)
  rw [htarget, show (m.log2 + e - 52 - e).toNat = m.log2 - 52 by omega] at hfirst
  obtain ⟨hlow, hhigh⟩ := roundedMantissa_between hm
  obtain ⟨em, t, hsecond, hlog, ht⟩ := exists_carried (e := m.log2 + e - 52) hlow hhigh (by omega)
  have hpos : em.mantissa ≠ 0 := by
    intro h
    rw [h] at hlog
    exact absurd hlog (by decide)
  refine ⟨t + 52, by omega, em.mantissa, t, Nat.pos_of_ne_zero hpos, ?_, hlog, rfl⟩
  exact (roundWithAccuracy_of_shift s hfirst hsecond).trans (dif_neg hpos)

namespace Leads

variable (h : Leads s p u)

include h

theorem neg : Leads (-s) p u.neg := by
  obtain ⟨m, e, hm, rfl, hlog, rfl⟩ := h
  exact ⟨m, e, hm, rfl, hlog, rfl⟩

theorem unpack_pack (hlow : -1022 ≤ p) (hhigh : p ≤ 1023) : (Float.Model.pack u).unpack = u := by
  obtain ⟨m, e, hm, rfl, hlog, rfl⟩ := h
  refine unpack_pack_of_log2_eq s hm hlog ?_ ?_
  · show 0 < e + (1023 : ℕ) + (52 : ℕ)
    omega
  · show e + (1023 : ℕ) + (52 : ℕ) + 1 < (2048 : ℕ)
    omega

/-- A product with one is rounded once more. -/
theorem mul_one (hlow : -1022 ≤ p) :
    ∃ p', (p' = p ∨ p' = p + 1) ∧
      Leads s p' (mul .binary64 u (.finite .positive (2 ^ 52) (-52) (by decide))) := by
  obtain ⟨m, e, hm, rfl, hlog, rfl⟩ := h
  have hlog' : (m * 2 ^ 52).log2 = 104 := by rw [log2_mul_two_pow hm, hlog]
  have hs : s * .positive = s := by cases s <;> rfl
  obtain ⟨p', hp', hleads⟩ := leads_roundWithAccuracy (m := m * 2 ^ 52) (e := e + -52) s
    (by omega) (by omega)
  refine ⟨p', by omega, ?_⟩
  rw [mul_finite, hs]
  exact hleads

theorem abs_unpackedValue : 2 ^ p ≤ |unpackedValue u| ∧ |unpackedValue u| < 2 ^ (p + 1) := by
  obtain ⟨m, e, hm, rfl, hlog, rfl⟩ := h
  obtain ⟨hlow, hhigh⟩ := (Nat.log2_eq_iff hm.ne').mp hlog
  have hpos := two_zpow_pos e
  rw [unpackedValue_finite, abs_apply_mul, add_assoc, zpow_add₀ two_ne_zero,
    zpow_add₀ two_ne_zero, mul_comm, mul_comm ((2 : ℚ) ^ e)]
  constructor
  · exact mul_le_mul_of_nonneg_right (by exact_mod_cast hlow) hpos.le
  · exact mul_lt_mul_of_pos_right (by exact_mod_cast hhigh) hpos

theorem unpackedValue_eq : unpackedValue u = (s.apply 1 : ℤ) * |unpackedValue u| := by
  obtain ⟨m, e, hm, rfl, -, -⟩ := h
  rw [unpackedValue_finite, abs_apply_mul, apply_mul_two_zpow]

end Leads

/-! ## 2. Whole numbers -/

theorem leads_round (s : Sign) (hm : 0 < m) (he : -1022 ≤ (m.log2 : ℤ) + e) :
    ∃ p, (p = m.log2 + e ∨ p = m.log2 + e + 1) ∧
      Leads s p (UnpackedFloat.round .binary64 s m e) := by
  have htarget := targetExponent_binary64 he
  have hdecrease := decreaseExponent_eq m e (m.log2 + e - 52)
  generalize hk : (e - (m.log2 + e - 52)).toNat = k at hdecrease
  have hlog : (m * 2 ^ k).log2 = m.log2 + k := log2_mul_two_pow hm k
  obtain ⟨p, hp, hleads⟩ := leads_roundWithAccuracy (m := m * 2 ^ k) (e := e - k) s
    (by omega) (by omega)
  refine ⟨p, by omega, ?_⟩
  simp only [UnpackedFloat.round, htarget, hdecrease]
  exact hleads

theorem leads_toFloat {n : UInt64} (hn : 0 < n.toNat) :
    ∃ p : ℤ, (p = n.toNat.log2 ∨ p = n.toNat.log2 + 1) ∧
      Leads .positive p n.toFloat.toModel.unpack := by
  have hlog : n.toNat.log2 < 64 := (Nat.log2_lt hn.ne').mpr n.toNat_lt
  obtain ⟨p, hp, hleads⟩ := leads_round (e := 0) .positive hn (by omega)
  refine ⟨p, by omega, ?_⟩
  rw [← normalize_apply .positive hn] at hleads
  show Leads .positive p
    (Float.Model.pack (UnpackedFloat.normalize .binary64 n.toNat 0 .positive)).unpack
  exact (hleads.unpack_pack (by omega) (by omega)).symm ▸ hleads

theorem leads_ofNat (hm : 0 < m) (hlt : m < 2 ^ 64) :
    ∃ p : ℤ, m.log2 ≤ p ∧ p ≤ m.log2 + 2 ∧ Leads .positive p (Float.ofNat m).toModel.unpack := by
  have hlog : m.log2 < 64 := (Nat.log2_lt hm.ne').mpr hlt
  by_cases hsmall : m < 2 ^ 53
  · -- converted as a word, and multiplied by one
    have hsize : m.toUInt64.toNat = m := Nat.mod_eq_of_lt hlt
    have hone : (Float.ofBits 0x3FF0000000000000).toModel.unpack =
      .finite .positive (2 ^ 52) (-52) (by decide) := rfl
    obtain ⟨p, hp, hleads⟩ := leads_toFloat (n := m.toUInt64) (by omega)
    rw [hsize] at hp
    obtain ⟨p', hp', hleads'⟩ := hleads.mul_one (by omega)
    refine ⟨p', by omega, by omega, ?_⟩
    show Leads .positive p' (Float.ofScientific m false 0).toModel.unpack
    rw [Float.ofScientific, dif_pos ⟨hsmall, by decide⟩]
    show Leads .positive p' (Float.Model.pack (mul .binary64 m.toUInt64.toFloat.toModel.unpack
      (Float.ofBits 0x3FF0000000000000).toModel.unpack)).unpack
    rw [hone, hleads'.unpack_pack (by omega) (by omega)]
    exact hleads'
  · -- the count gets 53 zeros and an exponent of -53, and is rounded only once
    have hscaled : m <<< 53 * 10 ^ (0 : ℤ).toNat = m * 2 ^ 53 := by
      rw [Nat.shiftLeft_eq, Int.toNat_zero, pow_zero, Nat.mul_one]
    have hlog' : (m * 2 ^ 53).log2 = m.log2 + 53 := log2_mul_two_pow hm 53
    obtain ⟨p, hp, hleads⟩ := leads_roundWithAccuracy (m := m * 2 ^ 53) (e := -53 + 0) .positive
      (by omega) (by omega)
    have hscientific : UnpackedFloat.ofScientific .binary64 m 0 =
        roundWithAccuracy .binary64 .positive (m * 2 ^ 53) (-53 + 0) .exact := by
      rw [UnpackedFloat.ofScientific, dif_neg hm.ne', if_neg (by decide), if_neg (by
        have hrange : (0 : ℤ) < 2 ^ Format.binary64.exponentBits := by decide
        omega), if_pos le_rfl, ← hscaled]
      rfl
    refine ⟨p, by omega, by omega, ?_⟩
    show Leads .positive p (Float.ofScientific m false 0).toModel.unpack
    rw [Float.ofScientific, dif_neg (by omega)]
    show Leads .positive p (Float.Model.pack (UnpackedFloat.ofScientific .binary64 m 0)).unpack
    rw [hscientific, hleads.unpack_pack (by omega) (by omega)]
    exact hleads

end

/-! ## 3. Their values -/

theorem doubleValue_eq {x : Float} (hx : x.isFinite) :
    doubleValue x = unpackedValue x.toModel.unpack := by
  rw [doubleValue, Dyadic.ofFloat_eq]
  exact Dyadic.value_ofBits hx

theorem Leads.isFinite {s : Sign} {p : ℤ} {x : Float} (h : Leads s p x.toModel.unpack) :
    x.isFinite := by
  obtain ⟨m, e, hm, hunpack, -, -⟩ := h
  show x.toModel.unpack.isFinite
  rw [hunpack]
  rfl

theorem doubleValue_toFloat {n : UInt64} (hn : 0 < n.toNat) :
    n.toFloat.isFinite ∧ 1 ≤ doubleValue n.toFloat ∧ doubleValue n.toFloat < 2 ^ 66 := by
  have hlog : n.toNat.log2 < 64 := (Nat.log2_lt hn.ne').mpr n.toNat_lt
  obtain ⟨p, hp, hleads⟩ := leads_toFloat hn
  obtain ⟨hlow, hhigh⟩ := hleads.abs_unpackedValue
  have hvalue := hleads.unpackedValue_eq
  rw [Sign.apply, Int.cast_one, one_mul] at hvalue
  rw [← hvalue, ← doubleValue_eq hleads.isFinite] at hlow hhigh
  have hone : (2 : ℚ) ^ (0 : ℤ) ≤ 2 ^ p := two_zpow_le (by omega)
  have hlarge : (2 : ℚ) ^ (p + 1) ≤ 2 ^ (66 : ℤ) := two_zpow_le (by omega)
  exact ⟨hleads.isFinite, by rw [zpow_zero] at hone; exact hone.trans hlow,
    by exact_mod_cast hhigh.trans_le hlarge⟩

theorem doubleValue_neg_ofNat {m : ℕ} (hm : 2 ≤ m) (hlt : m < 2 ^ 64) :
    (-(Float.ofNat m)).isFinite ∧ doubleValue (-(Float.ofNat m)) ≤ -2 ∧
      -2 ^ 66 < doubleValue (-(Float.ofNat m)) := by
  have hlog : m.log2 < 64 := (Nat.log2_lt (by omega)).mpr hlt
  have hlog' : 1 ≤ m.log2 := (Nat.le_log2 (by omega)).mpr (by omega)
  obtain ⟨p, hp, hp', hleads⟩ := leads_ofNat (by omega) hlt
  have hneg : Leads .negative p (-(Float.ofNat m)).toModel.unpack := by
    show Leads .negative p (Float.Model.pack (Float.ofNat m).toModel.unpack.neg).unpack
    rw [hleads.neg.unpack_pack (by omega) (by omega)]
    exact hleads.neg
  obtain ⟨hlow, hhigh⟩ := hneg.abs_unpackedValue
  have hvalue := hneg.unpackedValue_eq
  rw [Sign.apply, Int.cast_neg, Int.cast_one, neg_one_mul] at hvalue
  rw [← doubleValue_eq hneg.isFinite] at hlow hhigh hvalue
  have hone : (2 : ℚ) ^ (1 : ℤ) ≤ 2 ^ p := two_zpow_le (by omega)
  have hlarge : (2 : ℚ) ^ (p + 1) ≤ 2 ^ (66 : ℤ) := two_zpow_le (by omega)
  have hlarge' : |doubleValue (-(Float.ofNat m))| < 2 ^ 66 := by
    exact_mod_cast hhigh.trans_le hlarge
  rw [zpow_one] at hone
  exact ⟨hneg.isFinite, by linarith, by linarith⟩

end ContentCard.Number
