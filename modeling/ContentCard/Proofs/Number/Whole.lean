import ContentCard.Proofs.Number.Packing

/-!
# Whole numbers

Sums and differences of whole numbers with less than 24 bits are exact.
-/

namespace ContentCard.Number

open Float.Model (Format UnpackedFloat totalExponent)
open Float.Model.UnpackedFloat

/-! ## 1. Rounding drops zeros only -/

theorem log2_mul_two_pow {m : Nat} (hm : 0 < m) (k : Nat) : (m * 2 ^ k).log2 = m.log2 + k := by
  have hpos : m * 2 ^ k ≠ 0 := Nat.ne_of_gt (Nat.mul_pos hm (Nat.two_pow_pos k))
  have hle := Nat.mul_le_mul_right (2 ^ k) (Nat.log2_self_le (Nat.ne_of_gt hm))
  have hlt := Nat.mul_lt_mul_of_pos_right (Nat.lt_log2_self (n := m)) (Nat.two_pow_pos k)
  rw [← Nat.pow_add] at hle hlt
  exact (Nat.log2_eq_iff hpos).mpr ⟨hle, by rwa [Nat.add_right_comm]⟩

theorem log2_lt_of_lt {m : Nat} (hm : 0 < m) (hlt : m < 2 ^ 24) : m.log2 < 24 :=
  (Nat.log2_lt (Nat.ne_of_gt hm)).mpr hlt

/-- Zeros that are shifted out leave no trace. -/
theorem shiftRight_exact (m k : Nat) :
    (ExtendedMantissa.mk (m * 2 ^ k) false false) >>> k = ⟨m, false, false⟩ := by
  induction k generalizing m with
  | zero =>
    rw [Nat.pow_zero, Nat.mul_one]
    rfl
  | succ k ih =>
    have hstep : (ExtendedMantissa.mk (m * 2 ^ (k + 1)) false false) >>> (k + 1) =
        ((ExtendedMantissa.mk (m * 2 * 2 ^ k) false false) >>> k).shiftRightOne := by
      rw [Nat.mul_assoc, ← Nat.pow_succ']
      rfl
    rw [hstep, ih]
    simp [ExtendedMantissa.shiftRightOne]

theorem targetExponent_scaled {m : Nat} (hm : 0 < m) (k : Nat) :
    Format.binary32.targetExponent (totalExponent (m * 2 ^ k) (-k)) = m.log2 - 23 := by
  have hmin : Format.binary32.minExponent = -149 := rfl
  have hbits : (Format.binary32.mantissaBits : Int) = 24 := rfl
  rw [totalExponent, log2_mul_two_pow hm, Format.targetExponent, hmin, hbits]
  omega

/-- Where only zeros are shifted out, the leading bit comes to stand first. -/
theorem shiftToTargetExponent_scaled {m : Nat} (hm : 0 < m) (hlt : m < 2 ^ 24) (d : Nat) :
    shiftToTargetExponent .binary32 (m * 2 ^ (23 - m.log2 + d)) (-(23 - m.log2 + d : Nat)) .exact =
      (⟨m * 2 ^ (23 - m.log2), false, false⟩, (m.log2 : Int) - 23) := by
  have hlog := log2_lt_of_lt hm hlt
  have hd : ((m.log2 : Int) - 23 - -(23 - m.log2 + d : Nat)).toNat = d := by omega
  rw [shiftToTargetExponent, targetExponent_scaled hm, shiftToExponent, Nat.pow_add,
    ← Nat.mul_assoc, hd]
  refine Prod.ext (shiftRight_exact _ _) ?_
  show -(23 - m.log2 + d : Nat) + (d : Int) = m.log2 - 23
  omega

theorem roundWithAccuracy_scaled (s : Sign) {m : Nat} (hm : 0 < m) (hlt : m < 2 ^ 24) {k : Nat}
    (hk : 23 - m.log2 ≤ k) (hpos : 0 < m * 2 ^ (23 - m.log2)) :
    roundWithAccuracy .binary32 s (m * 2 ^ k) (-k) .exact =
      .finite s (m * 2 ^ (23 - m.log2)) (m.log2 - 23) hpos := by
  obtain ⟨d, rfl⟩ := Nat.exists_eq_add_of_le hk
  have hfirst := shiftToTargetExponent_scaled hm hlt d
  have hround : (ExtendedMantissa.mk (m * 2 ^ (23 - m.log2)) false false).roundedMantissa =
      m * 2 ^ (23 - m.log2) := rfl
  -- nothing was rounded up, so the second shift has nothing left to do
  have hsecond := shiftToTargetExponent_scaled hm hlt 0
  have hexp : -((23 - m.log2 + 0 : Nat) : Int) = m.log2 - 23 := by
    have := log2_lt_of_lt hm hlt
    omega
  rw [hexp, Nat.add_zero] at hsecond
  rw [← hround] at hsecond
  exact (roundWithAccuracy_of_shift s hfirst hsecond).trans (dif_neg (Nat.ne_of_gt hpos))

theorem round_scaled (s : Sign) {m : Nat} (hm : 0 < m) (hlt : m < 2 ^ 24) (k : Nat)
    (hpos : 0 < m * 2 ^ (23 - m.log2)) :
    UnpackedFloat.round .binary32 s (m * 2 ^ k) (-k) =
      .finite s (m * 2 ^ (23 - m.log2)) (m.log2 - 23) hpos := by
  have hlog := log2_lt_of_lt hm hlt
  rw [← roundWithAccuracy_scaled s hm hlt (Nat.le_max_right k (23 - m.log2)) hpos,
    UnpackedFloat.round, targetExponent_scaled hm]
  dsimp only [decreaseExponent]
  have hexp : k + (-(k : Int) - ((m.log2 : Int) - 23)).toNat = Max.max k (23 - m.log2) := by omega
  congr 1
  · rw [Nat.shiftLeft_eq, Nat.mul_assoc, ← Nat.pow_add, hexp]
  · omega

/-! ## 2. The form of a whole number -/

/-- The leading bit stands first. -/
def whole (n : Int) : UnpackedFloat :=
  if h : 0 < n.natAbs then
    .finite (if n < 0 then .negative else .positive) (n.natAbs * 2 ^ (23 - n.natAbs.log2))
      (n.natAbs.log2 - 23) (Nat.mul_pos h (Nat.two_pow_pos _))
  else .zero .positive

theorem isFinite_whole (n : Int) : (whole n).isFinite := by
  by_cases h : 0 < n.natAbs
  · rw [whole, dif_pos h]
    rfl
  · rw [whole, dif_neg h]
    rfl

theorem eq_zero_or_eq_apply (n : Int) : n = 0 ∨ ∃ (s : Sign) (m : Nat), 0 < m ∧ n = s.apply m := by
  obtain hneg | rfl | hpos := Int.lt_trichotomy n 0
  · exact .inr ⟨.negative, n.natAbs, by omega, by rw [Sign.apply]; omega⟩
  · exact .inl rfl
  · exact .inr ⟨.positive, n.natAbs, by omega, by rw [Sign.apply]; omega⟩

theorem natAbs_apply (s : Sign) (m : Nat) : (s.apply m).natAbs = m := by
  cases s <;> simp [Sign.apply]

theorem apply_mul (s : Sign) (m k : Int) : s.apply m * k = s.apply (m * k) := by
  cases s with
  | negative => exact Int.neg_mul m k
  | positive => rfl

theorem neg_apply (s : Sign) (k : Int) : -s.apply k = (-s).apply k := by
  cases s with
  | negative => exact Int.neg_neg k
  | positive => rfl

theorem whole_apply (s : Sign) {m : Nat} (hm : 0 < m) :
    whole (s.apply m) = .finite s (m * 2 ^ (23 - m.log2)) (m.log2 - 23)
      (Nat.mul_pos hm (Nat.two_pow_pos _)) := by
  rw [whole, dif_pos (by rwa [natAbs_apply])]
  have hsign : (if s.apply m < 0 then Sign.negative else .positive) = s := by
    cases s with
    | negative => exact if_pos (by rw [Sign.apply]; omega)
    | positive => exact if_neg (by rw [Sign.apply]; omega)
  rw [UnpackedFloat.finite.injEq, hsign, natAbs_apply]
  exact ⟨rfl, rfl, rfl⟩

theorem normalize_apply {spec : Format} (s : Sign) {m : Nat} (hm : 0 < m) (e : Int) :
    UnpackedFloat.normalize spec (s.apply m) e .positive = UnpackedFloat.round spec s m e := by
  cases s with
  | negative =>
    rw [UnpackedFloat.normalize, Sign.apply, Int.compare_eq_lt.mpr (by omega), Int.neg_neg,
      Int.toNat_natCast]
  | positive =>
    rw [UnpackedFloat.normalize, Sign.apply, Int.compare_eq_gt.mpr (by omega), Int.toNat_natCast]

theorem normalize_scaled {n : Int} (hn : n.natAbs < 2 ^ 24) (k : Nat) :
    UnpackedFloat.normalize .binary32 (n * 2 ^ k) (-k) .positive = whole n := by
  obtain rfl | ⟨s, m, hm, rfl⟩ := eq_zero_or_eq_apply n
  · rw [Int.zero_mul]
    rfl
  · rw [natAbs_apply] at hn
    have hk : s.apply m * 2 ^ k = s.apply (m * 2 ^ k : Nat) := by
      rw [apply_mul]
      simp
    rw [hk, normalize_apply s (Nat.mul_pos hm (Nat.two_pow_pos k)), whole_apply s hm]
    exact round_scaled s hm hn k _

theorem unpack_pack_whole {n : Int} (hn : n.natAbs < 2 ^ 24) :
    (Float32.Model.pack (whole n)).unpack = whole n := by
  obtain rfl | ⟨s, m, hm, rfl⟩ := eq_zero_or_eq_apply n
  · rfl
  · rw [natAbs_apply] at hn
    have hlog := log2_lt_of_lt hm hn
    rw [whole_apply s hm]
    exact unpack_pack_normal _ _ _ _ (by rw [log2_mul_two_pow hm]; omega) (by omega) (by omega)

/-! ## 3. Sums -/

theorem decreaseExponent_whole {m : Nat} (hm : m.log2 < 24) {e : Int} (he : e ≤ m.log2 - 23) :
    (decreaseExponent (m * 2 ^ (23 - m.log2)) (m.log2 - 23) e).1 = m * 2 ^ (-e).toNat := by
  have hexp : 23 - m.log2 + ((m.log2 : Int) - 23 - e).toNat = (-e).toNat := by omega
  rw [decreaseExponent, Nat.shiftLeft_eq, Nat.mul_assoc, ← Nat.pow_add, hexp]

theorem add_whole {a b : Int} (ha : a.natAbs < 2 ^ 24) (hb : b.natAbs < 2 ^ 24)
    (hab : (a + b).natAbs < 2 ^ 24) : add .binary32 (whole a) (whole b) = whole (a + b) := by
  obtain rfl | ⟨s, m, hm, rfl⟩ := eq_zero_or_eq_apply a
  · rw [Int.zero_add]
    obtain rfl | ⟨t, l, hl, rfl⟩ := eq_zero_or_eq_apply b
    · rfl
    · rw [whole_apply t hl]
      rfl
  obtain rfl | ⟨t, l, hl, rfl⟩ := eq_zero_or_eq_apply b
  · rw [Int.add_zero, whole_apply s hm]
    rfl
  rw [natAbs_apply] at ha hb
  have hma := log2_lt_of_lt hm ha
  have hlb := log2_lt_of_lt hl hb
  rw [whole_apply s hm, whole_apply t hl]
  rw [add_finite]
  -- both mantissas are taken to the smaller exponent
  generalize he : Min.min ((m.log2 : Int) - 23) (l.log2 - 23) = e
  rw [decreaseExponent_whole hma (by omega), decreaseExponent_whole hlb (by omega)]
  have hexp : e = -((-e).toNat : Int) := by omega
  rw [← normalize_scaled hab (-e).toNat, ← hexp, Int.add_mul, apply_mul, apply_mul]
  simp

theorem sub_finite (u : UnpackedFloat) (s : Sign) (m : Nat) (e : Int) (h : 0 < m) :
    sub .binary32 u (.finite s m e h) = add .binary32 u (.finite (-s) m e h) := by
  cases u with
  | notANumber | infinity | zero => rfl
  | finite =>
    show UnpackedFloat.normalize .binary32 (Sign.apply _ _ - Sign.apply _ _) _ _ = _
    rw [add_finite, Int.sub_eq_add_neg, neg_apply]
    rfl

theorem sub_whole {a b : Int} (ha : a.natAbs < 2 ^ 24) (hb : b.natAbs < 2 ^ 24)
    (hab : (a - b).natAbs < 2 ^ 24) : sub .binary32 (whole a) (whole b) = whole (a - b) := by
  obtain rfl | ⟨t, l, hl, rfl⟩ := eq_zero_or_eq_apply b
  · rw [Int.sub_zero]
    obtain rfl | ⟨s, m, hm, rfl⟩ := eq_zero_or_eq_apply a
    · rfl
    · rw [whole_apply s hm]
      rfl
  · rw [Int.sub_eq_add_neg, neg_apply] at hab ⊢
    rw [natAbs_apply] at hb
    rw [whole_apply t hl, sub_finite, ← whole_apply (-t) hl]
    exact add_whole ha (by rwa [natAbs_apply]) hab

/-! ## 4. Numbers made from whole ones -/

theorem mul_one_whole {n : Int} (hn : n.natAbs < 2 ^ 24) :
    mul .binary32 (whole n) (.finite .positive (2 ^ 23) (-23) (by decide)) = whole n := by
  obtain rfl | ⟨s, m, hm, rfl⟩ := eq_zero_or_eq_apply n
  · rfl
  rw [natAbs_apply] at hn
  have hlog := log2_lt_of_lt hm hn
  have hexp : (m.log2 : Int) - 23 + -23 = -(23 - m.log2 + 23 : Nat) := by omega
  have hs : s * .positive = s := by cases s <;> rfl
  rw [whole_apply s hm, mul_finite, hs, hexp, Nat.mul_assoc, ← Nat.pow_add]
  exact roundWithAccuracy_scaled s hm hn (by omega) _

theorem unpack_toUInt64_toFloat32 {n : Nat} (hn : n < 2 ^ 23) :
    n.toUInt64.toFloat32.toModel.unpack = whole n := by
  have hsize : n.toUInt64.toNat = n := Nat.mod_eq_of_lt (by omega)
  have hnormal := normalize_scaled (n := n) (by omega) 0
  rw [Int.pow_zero, Int.mul_one] at hnormal
  show (Float32.Model.pack
    (UnpackedFloat.normalize .binary32 n.toUInt64.toNat 0 .positive)).unpack = _
  rw [hsize]
  exact (congrArg (Float32.Model.unpack <| Float32.Model.pack ·) hnormal).trans
    (unpack_pack_whole (by omega))

theorem unpack_ofNat {n : Nat} (hn : n < 2 ^ 23) : (Float32.ofNat n).toModel.unpack = whole n := by
  have hword := unpack_toUInt64_toFloat32 hn
  show (Float32.ofScientific n false 0).toModel.unpack = _
  rw [Float32.ofScientific, dif_pos ⟨hn, by decide⟩]
  show (Float32.Model.pack (mul .binary32 n.toUInt64.toFloat32.toModel.unpack
    (Float32.ofBits 0x3F800000).toModel.unpack)).unpack = _
  rw [unpack_one, hword, mul_one_whole (by omega), unpack_pack_whole (by omega)]

theorem unpack_ofInt {n : Int} (hn : n.natAbs < 2 ^ 23) :
    (Float32.ofInt n).toModel.unpack = whole n := by
  cases n with
  | ofNat n => exact unpack_ofNat hn
  | negSucc n =>
    have hneg : (whole (n + 1 : Nat)).neg = whole (.negSucc n) := by
      have hpos := whole_apply .positive (Nat.succ_pos n)
      have hneg := whole_apply .negative (Nat.succ_pos n)
      exact (congrArg UnpackedFloat.neg hpos).trans hneg.symm
    show (Float32.Model.pack (UnpackedFloat.neg (Float32.ofNat (n + 1)).toModel.unpack)).unpack = _
    rw [unpack_ofNat (n := n + 1) hn, hneg, unpack_pack_whole (by omega)]

theorem ofInt_eq {n : Int} (hn : n.natAbs < 2 ^ 23) :
    Float32.ofInt n = .ofModel (.pack (whole n)) := by
  rw [← unpack_ofInt hn, pack_unpack]

theorem ofInt_add {a b : Int} (ha : a.natAbs < 2 ^ 23) (hb : b.natAbs < 2 ^ 23)
    (hab : (a + b).natAbs < 2 ^ 23) :
    Float32.ofInt a + Float32.ofInt b = Float32.ofInt (a + b) := by
  show Float32.ofModel (.pack (add .binary32 _ _)) = _
  rw [unpack_ofInt ha, unpack_ofInt hb, add_whole (by omega) (by omega) (by omega), ofInt_eq hab]

theorem ofInt_sub {a b : Int} (ha : a.natAbs < 2 ^ 23) (hb : b.natAbs < 2 ^ 23)
    (hab : (a - b).natAbs < 2 ^ 23) :
    Float32.ofInt a - Float32.ofInt b = Float32.ofInt (a - b) := by
  show Float32.ofModel (.pack (sub .binary32 _ _)) = _
  rw [unpack_ofInt ha, unpack_ofInt hb, sub_whole (by omega) (by omega) (by omega), ofInt_eq hab]

end ContentCard.Number
