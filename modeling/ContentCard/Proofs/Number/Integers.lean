import ContentCard.Proofs.Number.Quotient

/-!
# Whole numbers around a number

The parts of a number that are read off its bits have the value of the number.  So rounding it down
and up gives the whole numbers around it, and making it an integer of 32 bits cuts off only what
does not fit.  A count becomes the nearest number, which is a whole one.
-/

namespace ContentCard.Number

open Float.Model (Format UnpackedFloat)
open Float.Model.UnpackedFloat

/-! ## 1. The parts of a number -/

section

variable {spec : Format} (b : BitVec spec.numBits)

theorem toNat_unpackMantissa :
    (unpackMantissa b).toNat = b.toNat % 2 ^ spec.mantissaBitsWithoutImplicit := by
  rw [unpackMantissa, BitVec.toNat_cast, BitVec.extractLsb_toNat, Nat.shiftRight_zero,
    Nat.sub_zero, Nat.sub_add_cancel spec.hm]

theorem toNat_unpackExponent : (unpackExponent b).toNat =
    b.toNat / 2 ^ spec.mantissaBitsWithoutImplicit % 2 ^ spec.exponentBits := by
  have hbits : spec.mantissaBitsWithoutImplicit + spec.exponentBits - 1 -
      spec.mantissaBitsWithoutImplicit + 1 = spec.exponentBits := by
    have := spec.he
    omega
  rw [unpackExponent, BitVec.toNat_cast, BitVec.extractLsb_toNat, Nat.shiftRight_eq_div_pow, hbits]

theorem toNat_unpackSign : (unpackSign b).toNat =
    b.toNat / 2 ^ (spec.mantissaBitsWithoutImplicit + spec.exponentBits) := by
  have hlt : b.toNat < 2 ^ (spec.mantissaBitsWithoutImplicit + spec.exponentBits) * 2 := by
    rw [← Nat.pow_succ]
    exact b.isLt.trans_eq (congrArg _ (by rw [Format.numBits]; omega))
  show (BitVec.cast _ (b.extractLsb _ _)).toNat = _
  rw [BitVec.toNat_cast, BitVec.extractLsb_toNat, Nat.shiftRight_eq_div_pow, Nat.sub_self]
  exact Nat.mod_eq_of_lt (Nat.div_lt_of_lt_mul hlt)

theorem apply_ofBitVec (v : BitVec 1) (n : ℤ) :
    (Sign.ofBitVec v).apply n = if v.toNat = 1 then -n else n := by
  obtain rfl | rfl := BitVec.eq_zero_or_eq_one v <;> rfl

end

namespace Dyadic

def value (d : Dyadic) : ℚ := (d.signed d.mantissa : ℤ) * 2 ^ d.exponent

/-- The parts of a number of any format.  The first exponent is that of the subnormal numbers. -/
def ofBits (spec : Format) (b : BitVec spec.numBits) : Dyadic :=
  if (unpackExponent b).toNat = 0 then
    ⟨(unpackSign b).toNat = 1, (unpackMantissa b).toNat,
      1 - (spec.exponentBias + spec.mantissaBitsWithoutImplicit)⟩
  else
    ⟨(unpackSign b).toNat = 1,
      (unpackMantissa b).toNat + 2 ^ spec.mantissaBitsWithoutImplicit,
      (unpackExponent b).toNat - (spec.exponentBias + spec.mantissaBitsWithoutImplicit)⟩

theorem value_ofBits {spec : Format} {b : BitVec spec.numBits} (h : (unpack spec b).isFinite) :
    (ofBits spec b).value = unpackedValue (unpack spec b) := by
  have hsign (m : ℕ) (e : ℤ) (k : ℕ) :
      signed ⟨(unpackSign b).toNat = 1, m, e⟩ k = (Sign.ofBitVec (unpackSign b)).apply k := by
    rw [apply_ofBitVec, signed]
    simp
  rw [ofBits]
  -- the last exponent is that of the infinite numbers
  by_cases hlast : unpackExponent b = -1#_
  · rw [unpack_of_last hlast] at h
    split at h <;> cases h
  by_cases hfirst : unpackExponent b = 0#_
  · rw [if_pos (by rw [hfirst, BitVec.toNat_ofNat, Nat.zero_mod]), value, hsign]
    by_cases hm : unpackMantissa b = 0#_
    · rw [unpack_of_zero hfirst hm, hm]
      simp [apply_ofBitVec]
    · rw [unpack_of_subnormal hfirst hm, unpackedValue_finite]
  · rw [if_neg (BitVec.toNat_pos_of_ne_zero hfirst).ne', value, hsign,
      unpack_of_normal hfirst hlast (Nat.add_pos_left (Nat.two_pow_pos _) _),
      unpackedValue_finite, Nat.add_comm]

theorem ofFloat32_eq (x : Float32) : ofFloat32 x = ofBits .binary32 x.toBits.toBitVec := by
  have hexponent : (x.toBits >>> 23 &&& 0xff).toNat = x.toBits.toNat / 2 ^ 23 % 2 ^ 8 := by
    rw [UInt32.toNat_and, UInt32.toNat_shiftRight, ← Nat.and_two_pow_sub_one_eq_mod,
      Nat.shiftRight_eq_div_pow]
    rfl
  have hmantissa : (x.toBits &&& 0x7fffff).toNat = x.toBits.toNat % 2 ^ 23 := by
    rw [UInt32.toNat_and]
    exact Nat.and_two_pow_sub_one_eq_mod x.toBits.toNat 23
  have hsign : (x.toBits >>> 31 == 1) = decide (x.toBits.toNat / 2 ^ 31 = 1) := by
    rw [Bool.eq_iff_iff, beq_iff_eq, decide_eq_true_iff, ← UInt32.toNat_inj,
      UInt32.toNat_shiftRight, Nat.shiftRight_eq_div_pow]
    rfl
  rw [ofBits, toNat_unpackExponent, toNat_unpackMantissa, toNat_unpackSign]
  simp only [ofFloat32, hexponent, hmantissa, hsign]
  rfl

theorem ofFloat_eq (x : Float) : ofFloat x = ofBits .binary64 x.toBits.toBitVec := by
  have hexponent : (x.toBits >>> 52 &&& 0x7ff).toNat = x.toBits.toNat / 2 ^ 52 % 2 ^ 11 := by
    rw [UInt64.toNat_and, UInt64.toNat_shiftRight, ← Nat.and_two_pow_sub_one_eq_mod,
      Nat.shiftRight_eq_div_pow]
    rfl
  have hmantissa : (x.toBits &&& 0xfffffffffffff).toNat = x.toBits.toNat % 2 ^ 52 := by
    rw [UInt64.toNat_and]
    exact Nat.and_two_pow_sub_one_eq_mod x.toBits.toNat 52
  have hsign : (x.toBits >>> 63 == 1) = decide (x.toBits.toNat / 2 ^ 63 = 1) := by
    rw [Bool.eq_iff_iff, beq_iff_eq, decide_eq_true_iff, ← UInt64.toNat_inj,
      UInt64.toNat_shiftRight, Nat.shiftRight_eq_div_pow]
    rfl
  rw [ofBits, toNat_unpackExponent, toNat_unpackMantissa, toNat_unpackSign]
  simp only [ofFloat, hexponent, hmantissa, hsign]
  rfl

end Dyadic

theorem value_ofFloat32 {x : Float32} (hx : x.isFinite) :
    (Dyadic.ofFloat32 x).value = value x := by
  rw [Dyadic.ofFloat32_eq]
  exact Dyadic.value_ofBits hx

/-! ## 2. Counts -/

/-- A count of more than 23 bits is scaled by hand. -/
theorem ofNat_eq {n : ℕ} (hn : 2 ^ 23 ≤ n) :
    Float32.ofNat n = .ofModel (.pack (UnpackedFloat.ofScientific .binary32 n 0)) := by
  show Float32.ofScientific n false 0 = _
  rw [Float32.ofScientific, dif_neg (by omega)]
  rfl

theorem isRounded_ofScientific {n : ℕ} (hn : 0 < n) :
    IsRounded n (UnpackedFloat.ofScientific .binary32 n 0) := by
  -- the count gets 24 zeros and an exponent of -24, so that its bits are rounded only once
  have hscaled : n <<< 24 * 10 ^ (0 : ℤ).toNat = n * 2 ^ 24 := by
    rw [Nat.shiftLeft_eq, Int.toNat_zero, pow_zero, mul_one]
  have hvalue : ((Sign.positive.apply (n * 2 ^ 24 : ℕ) : ℤ) : ℚ) * 2 ^ (-24 + 0 : ℤ) = n := by
    rw [Sign.apply, add_zero, Int.cast_natCast, Nat.cast_mul, Nat.cast_pow, mul_assoc]
    norm_num
  have hrange : (0 : ℤ) < 2 ^ Format.binary32.exponentBits := by decide
  rw [UnpackedFloat.ofScientific, dif_neg (Nat.ne_of_gt hn), if_neg (by decide), if_neg (by omega),
    if_pos (by decide), ← hvalue, ← hscaled]
  refine isRounded_exact .positive ?_ ?_
  · rw [hscaled]
    exact Nat.mul_pos hn (Nat.two_pow_pos 24)
  · rw [gridExponent_eq, hscaled, log2_mul_two_pow hn]
    omega

theorem rounds_ofNat (n : ℕ) : Rounds n (Float32.ofNat n) := by
  by_cases hn : n < 2 ^ 23
  · have hfinite := isFinite_ofNat hn
    obtain ⟨t, ht⟩ := (isRounded_unpack hfinite).isRounding
    rw [value_ofNat hn] at ht
    exact .finite hfinite t ht
  · have hlarge := not_lt.mp hn
    exact .of_isRounded (isRounded_ofScientific (by omega)) (ofNat_eq hlarge)

/-- Counts of 24 bits are kept. -/
theorem value_ofNat_of_lt {n : ℕ} (hn : n < 2 ^ 24) :
    (Float32.ofNat n).isFinite ∧ value (Float32.ofNat n) = n := by
  by_cases hsmall : n < 2 ^ 23
  · exact ⟨isFinite_ofNat hsmall, value_ofNat hsmall⟩
  · have hlt : |(n : ℚ)| < 2 ^ (24 : ℤ) := by
      rw [abs_of_nonneg (Nat.cast_nonneg n)]
      exact_mod_cast hn
    have hlarge : |(n : ℚ)| < 2 ^ (127 : ℤ) := hlt.trans_le (two_zpow_le (by decide))
    obtain ⟨hfinite, t, ht⟩ := (isRounded_ofScientific (n := n) (by omega)).isRounding_value
      (ofNat_eq (by omega)) (by exact_mod_cast hlarge)
    have hgrid : t ≤ 0 := ht.exponent_le (p := 24) (by decide) hlt
    exact ⟨hfinite, ht.eq_of_eq hgrid (j := n) (by simp)⟩

/-! ## 3. Rounding down and up -/

namespace Dyadic

theorem value_of_exponent_lt {d : Dyadic} (h : d.exponent < 0) :
    d.value = (d.signed d.mantissa : ℤ) / (2 ^ d.exponent.natAbs : ℕ) := by
  have hexp : d.exponent = -(d.exponent.natAbs : ℤ) := by omega
  rw [value, div_eq_mul_inv, hexp, zpow_neg, zpow_natCast, Int.natAbs_neg, Int.natAbs_natCast]
  push_cast
  rfl

theorem value_of_exponent_nonneg {d : Dyadic} (h : 0 ≤ d.exponent) :
    d.value = (d.signed d.mantissa * 2 ^ d.exponent.natAbs : ℤ) := by
  have hcast : d.exponent = d.exponent.natAbs := by omega
  rw [value, hcast, zpow_natCast, ← hcast]
  push_cast
  rfl

theorem natAbs_signed (d : Dyadic) (m : ℕ) : (d.signed m).natAbs = m := by
  rw [signed]
  split <;> simp

theorem isWhole_iff {d : Dyadic} : d.isWhole ↔ ∃ n : ℤ, d.value = n := by
  by_cases hexp : 0 ≤ d.exponent
  · exact iff_of_true (by simp [isWhole, hexp]) ⟨_, value_of_exponent_nonneg hexp⟩
  · have hpos := Nat.two_pow_pos d.exponent.natAbs
    rw [value_of_exponent_lt (not_le.mp hexp)]
    simp only [isWhole, hexp, decide_false, Bool.false_or, beq_iff_eq, Nat.pow_eq]
    generalize 2 ^ d.exponent.natAbs = k at hpos ⊢
    have hk : (k : ℚ) ≠ 0 := by exact_mod_cast hpos.ne'
    calc
      d.mantissa % k = 0 ↔ (k : ℤ) ∣ d.signed d.mantissa := by
        rw [← Int.natAbs_dvd_natAbs, natAbs_signed, Int.natAbs_natCast, Nat.dvd_iff_mod_eq_zero]
      _ ↔ ∃ n : ℤ, ((d.signed d.mantissa : ℤ) / (k : ℕ) : ℚ) = n := by
        refine exists_congr fun n => ?_
        rw [div_eq_iff hk, Int.mul_comm]
        exact_mod_cast Iff.rfl

theorem ceil_eq {d : Dyadic} (h : d.exponent < 0) : d.ceil = ⌈d.value⌉ := by
  have hpos := Nat.two_pow_pos d.exponent.natAbs
  have hneg : ¬0 ≤ d.exponent := not_le.mpr h
  rw [value_of_exponent_lt h, Rat.ceil_intCast_div_natCast]
  simp only [ceil, whole, isWhole, if_neg hneg, Nat.shiftRight_eq_div_pow, decide_eq_false hneg,
    Bool.false_or, Nat.pow_eq]
  generalize 2 ^ d.exponent.natAbs = k at hpos ⊢
  obtain ⟨negative, m, e⟩ := d
  cases negative with
  | true => simp [signed]
  | false =>
    have hdvd : (k : ℤ) ∣ m ↔ m % k = 0 := by
      rw [Int.natCast_dvd_natCast, Nat.dvd_iff_mod_eq_zero]
    simp only [signed, Bool.false_or, Bool.false_eq_true, if_false, Int.neg_ediv, beq_iff_eq, hdvd,
      Int.sign_natCast_of_ne_zero (Nat.ne_of_gt hpos)]
    split <;> simp [Int.add_comm]

/-- Rounding down is rounding up on the other side of zero. -/
theorem floor_eq {d : Dyadic} (h : d.exponent < 0) : d.floor = ⌊d.value⌋ := by
  obtain ⟨negative, m, e⟩ := d
  have hopposite : floor ⟨negative, m, e⟩ = -ceil ⟨!negative, m, e⟩ := by
    have hwhole : whole ⟨!negative, m, e⟩ = whole ⟨negative, m, e⟩ := rfl
    have hisWhole : isWhole ⟨!negative, m, e⟩ = isWhole ⟨negative, m, e⟩ := rfl
    rw [floor, ceil, hwhole, hisWhole]
    generalize whole _ = n
    cases negative <;> cases isWhole ⟨_, m, e⟩ <;> simp [signed]
  have hvalue : value ⟨!negative, m, e⟩ = -value ⟨negative, m, e⟩ := by
    cases negative <;> simp [value, signed]
  have hceil : ceil ⟨!negative, m, e⟩ = ⌈value ⟨!negative, m, e⟩⌉ := ceil_eq h
  rw [hopposite, hceil, hvalue, Int.ceil_neg, neg_neg]

/-- The mantissa of a number with a fraction is small. -/
theorem abs_value_le {d : Dyadic} (hm : d.mantissa < 2 ^ 24) (h : d.exponent < 0) :
    |d.value| ≤ 2 ^ 23 := by
  have hm' : (d.mantissa : ℚ) < 2 ^ 24 := by exact_mod_cast hm
  have hstep : (2 : ℚ) ^ d.exponent ≤ 2 ^ (-1 : ℤ) := two_zpow_le (by omega)
  have hsigned : |((d.signed d.mantissa : ℤ) : ℚ)| = d.mantissa := by
    rw [signed]
    split <;> simp
  rw [value, abs_mul, abs_of_pos (two_zpow_pos d.exponent), hsigned]
  calc
    (d.mantissa : ℚ) * 2 ^ d.exponent ≤ 2 ^ 24 * 2 ^ (-1 : ℤ) :=
      mul_le_mul hm'.le hstep (two_zpow_pos _).le (by positivity)
    _ = 2 ^ 23 := by norm_num

theorem mantissa_ofBits_lt (spec : Format) (b : BitVec spec.numBits) :
    (ofBits spec b).mantissa < 2 ^ spec.mantissaBits := by
  have hlt := (unpackMantissa b).isLt
  have hbits : spec.mantissaBits = spec.mantissaBitsWithoutImplicit + 1 := Nat.add_comm _ _
  rw [ofBits, hbits, Nat.pow_succ]
  split
  · show (unpackMantissa b).toNat < _
    omega
  · show (unpackMantissa b).toNat + _ < _
    omega

theorem mantissa_ofFloat32_lt (x : Float32) : (ofFloat32 x).mantissa < 2 ^ 24 := by
  rw [ofFloat32_eq]
  exact mantissa_ofBits_lt .binary32 _

end Dyadic

theorem value_neg {x : Float32} (hx : x.isFinite) : (-x).isFinite ∧ value (-x) = -value x := by
  have hcanonical := isCanonical_unpack x
  have hsmall := (hcanonical.isFinite_pack_iff hx).mp (by rw [pack_unpack]; exact hx)
  rw [← abs_neg, ← unpackedValue_neg] at hsmall
  have hpack := (hcanonical.neg.isFinite_pack_iff (isFinite_neg hx)).mpr hsmall
  have hunpack : (-x).toModel.unpack = x.toModel.unpack.neg :=
    hcanonical.neg.unpack_pack_of_isFinite (isFinite_neg hx) hpack
  refine ⟨?_, ?_⟩
  · show (-x).toModel.unpack.isFinite
    rw [hunpack]
    exact isFinite_neg hx
  · rw [value, hunpack, unpackedValue_neg]
    rfl

/-- A rule that keeps whole numbers and their order is computed without an error. -/
theorem value_roundedBy {rule : Dyadic → ℤ} {f : ℚ → ℤ}
    (hrule : ∀ d : Dyadic, d.exponent < 0 → rule d = f d.value) (hmono : Monotone f)
    (hwhole : ∀ n : ℤ, f n = n) {x : Float32} (hx : x.isFinite) :
    (roundedBy rule x).isFinite ∧ value (roundedBy rule x) = f (value x) := by
  have hvalue := value_ofFloat32 hx
  have hmantissa := Dyadic.mantissa_ofFloat32_lt x
  rw [roundedBy, if_pos hx]
  dsimp only
  generalize Dyadic.ofFloat32 x = d at hvalue hmantissa
  split
  next hexp =>
    -- without a fraction there is nothing to round
    rw [← hvalue, Dyadic.value_of_exponent_nonneg hexp, hwhole]
    exact ⟨hx, rfl⟩
  next hexp =>
    -- with a fraction the number is small, and the whole number is exact
    have hlarge := abs_le.mp (Dyadic.abs_value_le hmantissa (not_le.mp hexp))
    have hlow := hmono (a := (-2 ^ 23 : ℤ)) (b := d.value) (by exact_mod_cast hlarge.1)
    have hhigh := hmono (a := d.value) (b := (2 ^ 23 : ℤ)) (by exact_mod_cast hlarge.2)
    rw [hwhole] at hlow hhigh
    rw [hrule d (not_le.mp hexp), ← hvalue]
    generalize hn : f d.value = n at hlow hhigh
    obtain ⟨hfinite, hcount⟩ := value_ofNat_of_lt (n := n.natAbs) (by omega)
    by_cases hneg : d.negative
    · have hle : d.value ≤ (0 : ℤ) := by
        rw [Dyadic.value, Dyadic.signed, if_pos hneg]
        push_cast
        exact mul_nonpos_of_nonpos_of_nonneg (neg_nonpos.mpr (Nat.cast_nonneg _))
          (two_zpow_pos _).le
      have hn' : n ≤ 0 := by rw [← hn, ← hwhole 0]; exact hmono hle
      obtain ⟨hfinite', hopposite⟩ := value_neg hfinite
      rw [if_pos hneg]
      refine ⟨hfinite', ?_⟩
      rw [hopposite, hcount, ← Int.cast_natCast, ← Int.cast_neg]
      congr 1
      omega
    · have hge : (0 : ℤ) ≤ d.value := by
        rw [Dyadic.value, Dyadic.signed, if_neg hneg]
        push_cast
        exact mul_nonneg (Nat.cast_nonneg _) (two_zpow_pos _).le
      have hn' : 0 ≤ n := by rw [← hn, ← hwhole 0]; exact hmono hge
      rw [if_neg hneg]
      refine ⟨hfinite, ?_⟩
      rw [hcount, ← Int.cast_natCast, Int.natAbs_of_nonneg hn']

theorem value_ceil {x : Float32} (hx : x.isFinite) :
    (ceil x).isFinite ∧ value (ceil x) = ⌈value x⌉ :=
  value_roundedBy (fun _ => Dyadic.ceil_eq) Int.ceil_mono Int.ceil_intCast hx

theorem value_floor {x : Float32} (hx : x.isFinite) :
    (floor x).isFinite ∧ value (floor x) = ⌊value x⌋ :=
  value_roundedBy (fun _ => Dyadic.floor_eq) Int.floor_mono Int.floor_intCast hx

/-! ## 4. Integers of 32 bits -/

namespace Dyadic

theorem trunc_eq {d : Dyadic} {n : ℤ} (h : d.value = n) : d.trunc = n := by
  rw [trunc, whole]
  split
  next hexp =>
    rw [value_of_exponent_nonneg hexp] at h
    rw [← Int.cast_inj.mp h, Nat.shiftLeft_eq, signed, signed]
    split
    · push_cast
      ring
    · push_cast
      rfl
  next hexp =>
    -- the mantissa is a multiple of what it is divided by
    have hpos := Nat.two_pow_pos d.exponent.natAbs
    rw [value_of_exponent_lt (not_le.mp hexp), div_eq_iff (by exact_mod_cast hpos.ne')] at h
    rw [Nat.shiftRight_eq_div_pow]
    generalize 2 ^ d.exponent.natAbs = k at hpos h
    have hn : d.signed d.mantissa = n * k := by exact_mod_cast h
    rw [signed] at hn ⊢
    have hk : (k : ℤ) ≠ 0 := by omega
    split at hn
    next hneg =>
      have hm : (d.mantissa : ℤ) = -n * k := by rw [Int.neg_mul]; omega
      rw [if_pos hneg, Int.natCast_ediv, hm, Int.mul_ediv_cancel _ hk, neg_neg]
    next hneg =>
      rw [if_neg hneg, Int.natCast_ediv, hn, Int.mul_ediv_cancel _ hk]

end Dyadic

theorem toIntWithin_eq {lo hi : ℤ} {x : Float32} (hx : x.isFinite) {n : ℤ} (h : value x = n) :
    toIntWithin lo hi x = Max.max lo (Min.min hi n) := by
  rw [toIntWithin, if_pos hx, Dyadic.trunc_eq ((value_ofFloat32 hx).trans h)]

theorem toInt32_floor {x : Float32} (hx : x.isFinite) :
    toInt32 (floor x) = Max.max (-2147483648) (Min.min 2147483647 ⌊value x⌋) :=
  toIntWithin_eq (value_floor hx).1 (value_floor hx).2

theorem toInt32_ceil {x : Float32} (hx : x.isFinite) :
    toInt32 (ceil x) = Max.max (-2147483648) (Min.min 2147483647 ⌈value x⌉) :=
  toIntWithin_eq (value_ceil hx).1 (value_ceil hx).2

end ContentCard.Number
