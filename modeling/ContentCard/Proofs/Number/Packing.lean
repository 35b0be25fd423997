import ContentCard.Number.Binary
import Mathlib.Algebra.Group.Int.Defs
import Mathlib.Algebra.Group.Nat.Defs
import Mathlib.Tactic.SplitIfs

/-!
# Numbers as they are packed

A sum is computed on the sign, mantissa and exponent of its operands and packed into 32 bits again.
Packing what was unpacked gives the same bits, and the result is a number if it was one before.
-/

namespace ContentCard.Number

open Float.Model (Format UnpackedFloat)
open Float.Model.UnpackedFloat

/-! ## 1. The three fields -/

theorem toBitVec_ofBitVec (v : BitVec 1) : (Sign.ofBitVec v).toBitVec = v := by
  revert v
  decide

theorem getLsbD_unpackSign {spec : Format} (b : BitVec spec.numBits) {i : Nat} (hi : i < 1) :
    (unpackSign b).getLsbD i =
      b.getLsbD (spec.mantissaBitsWithoutImplicit + spec.exponentBits + i) := by
  show (BitVec.cast _ (b.extractLsb _ _)).getLsbD i = _
  rw [BitVec.getLsbD_cast, BitVec.getLsbD_extractLsb, decide_eq_true (by omega), Bool.true_and]

theorem unpackSign_packComponents {spec : Format} (s : Sign) (e : BitVec spec.exponentBits)
    (m : BitVec spec.mantissaBitsWithoutImplicit) :
    unpackSign (packComponents spec s e m) = s.toBitVec := by
  refine BitVec.eq_of_getLsbD_eq fun i hi => ?_
  obtain rfl : i = 0 := Nat.lt_one_iff.mp hi
  rw [getLsbD_unpackSign _ hi, packComponents, BitVec.getLsbD_append, BitVec.getLsbD_append]
  simp

theorem ofBitVec_toBitVec (s : Sign) : Sign.ofBitVec s.toBitVec = s := by
  cases s <;> rfl

theorem packComponents_fields (b : BitVec Format.binary32.numBits) :
    packComponents .binary32 (Sign.ofBitVec (unpackSign b)) (unpackExponent b)
      (unpackMantissa b) = b := by
  refine BitVec.eq_of_getLsbD_eq fun i hi => ?_
  change i < 32 at hi
  rw [packComponents, toBitVec_ofBitVec, BitVec.getLsbD_append, BitVec.getLsbD_append]
  simp only [unpackExponent, unpackMantissa, BitVec.getLsbD_cast, BitVec.getLsbD_extractLsb]
  split_ifs with hm he
  · rw [decide_eq_true (by omega), Bool.true_and, Nat.zero_add]
  · rw [decide_eq_true (by omega), Bool.true_and, Nat.add_sub_of_le (by omega)]
  · rw [getLsbD_unpackSign _ (by omega), show 23 + 8 + (i - 23 - 8) = i by omega]

/-- The bit that is not stored. -/
theorem toNat_one_append {w : Nat} (v : BitVec w) : (1#1 ++ v).toNat = 2 ^ w + v.toNat := by
  have hone : (1#1).toNat <<< w = 2 ^ w := Nat.one_shiftLeft w
  rw [BitVec.toNat_append, hone, Nat.or_comm, Nat.or_two_pow_eq_add_of_lt v.isLt, Nat.add_comm]

section

variable {spec : Format} {b : BitVec spec.numBits}

theorem unpack_of_last (h : unpackExponent b = -1#_) :
    unpack spec b =
      if unpackMantissa b = 0#_ then .infinity (Sign.ofBitVec (unpackSign b)) else .notANumber :=
  if_pos h

theorem first_ne_last : (0#_ : BitVec spec.exponentBits) ≠ -1#_ := fun h =>
  Nat.ne_of_gt spec.he (BitVec.zero_eq_neg_one_iff.mp h)

theorem unpack_of_zero (h : unpackExponent b = 0#_) (hm : unpackMantissa b = 0#_) :
    unpack spec b = .zero (Sign.ofBitVec (unpackSign b)) :=
  (if_neg (h ▸ first_ne_last)).trans ((if_pos h).trans (dif_pos hm))

theorem unpack_of_subnormal (h : unpackExponent b = 0#_) (hm : unpackMantissa b ≠ 0#_) :
    unpack spec b = .finite (Sign.ofBitVec (unpackSign b)) (unpackMantissa b).toNat
      (1 - (spec.exponentBias + spec.mantissaBitsWithoutImplicit))
      (BitVec.toNat_pos_of_ne_zero hm) := by
  refine (if_neg (h ▸ first_ne_last)).trans ((if_pos h).trans ((dif_neg hm).trans ?_))
  rw [UnpackedFloat.finite.injEq, h, BitVec.toNat_ofNat, Nat.zero_mod]
  exact ⟨rfl, rfl, by omega⟩

theorem unpack_of_normal (h₀ : unpackExponent b ≠ 0#_) (h : unpackExponent b ≠ -1#_)
    (hm : 0 < 2 ^ spec.mantissaBitsWithoutImplicit + (unpackMantissa b).toNat) :
    unpack spec b = .finite (Sign.ofBitVec (unpackSign b))
      (2 ^ spec.mantissaBitsWithoutImplicit + (unpackMantissa b).toNat)
      ((unpackExponent b).toNat - (spec.exponentBias + spec.mantissaBitsWithoutImplicit)) hm := by
  refine (if_neg h).trans ((if_neg h₀).trans ?_)
  rw [UnpackedFloat.finite.injEq]
  exact ⟨rfl, toNat_one_append _, rfl⟩

end

section

variable {spec : Format} (s : Sign) {m : Nat} {e : Int} (hm : 0 < m)

theorem pack_of_large (h : 2 ^ spec.exponentBits ≤
      (e + spec.exponentBias + spec.mantissaBitsWithoutImplicit).toNat + 1) :
    pack spec (.finite s m e hm) = packedInfinity spec s :=
  if_pos h

theorem pack_of_log2_eq (h : ¬2 ^ spec.exponentBits ≤
      (e + spec.exponentBias + spec.mantissaBitsWithoutImplicit).toNat + 1)
    (hlog : m.log2 + 1 = spec.mantissaBits) :
    pack spec (.finite s m e hm) =
      packComponents spec s
        (BitVec.ofNat _ (e + spec.exponentBias + spec.mantissaBitsWithoutImplicit).toNat)
        (BitVec.ofNat _ m) :=
  (if_neg h).trans (if_pos hlog)

theorem pack_of_log2_ne (h : ¬2 ^ spec.exponentBits ≤
      (e + spec.exponentBias + spec.mantissaBitsWithoutImplicit).toNat + 1)
    (hlog : m.log2 + 1 ≠ spec.mantissaBits) :
    pack spec (.finite s m e hm) = packComponents spec s 0#_ (BitVec.ofNat _ m) :=
  (if_neg h).trans (if_neg hlog)

end

theorem pack_subnormal (s : Sign) (m : BitVec 23) (hm : 0 < m.toNat) :
    pack .binary32 (.finite s m.toNat (-149) hm) = packComponents .binary32 s 0#8 m := by
  have hlog : m.toNat.log2 < 23 := (Nat.log2_lt (Nat.ne_of_gt hm)).mpr m.isLt
  rw [pack_of_log2_ne s hm (by decide), BitVec.ofNat_toNat, BitVec.setWidth_eq]
  show m.toNat.log2 + 1 ≠ 1 + 23
  omega

section

variable {spec : Format} (s : Sign) {e : BitVec spec.exponentBits}
  (m : BitVec spec.mantissaBitsWithoutImplicit)
  (h : 0 < 2 ^ spec.mantissaBitsWithoutImplicit + m.toNat)

theorem pack_normal (he : e ≠ -1#_) :
    pack spec (.finite s (2 ^ spec.mantissaBitsWithoutImplicit + m.toNat)
      (e.toNat - (spec.exponentBias + spec.mantissaBitsWithoutImplicit)) h) =
      packComponents spec s e m := by
  have hm := m.isLt
  have hlog : (2 ^ spec.mantissaBitsWithoutImplicit + m.toNat).log2 =
      spec.mantissaBitsWithoutImplicit :=
    (Nat.log2_eq_iff (by omega)).mpr ⟨by omega, by omega⟩
  have hbias : ((e.toNat : Int) - (spec.exponentBias + spec.mantissaBitsWithoutImplicit) +
      spec.exponentBias + spec.mantissaBitsWithoutImplicit).toNat = e.toNat := by
    omega
  have hlast : e.toNat ≠ 2 ^ spec.exponentBits - 1 := fun h => he (BitVec.eq_of_toNat_eq (by
    rw [h, BitVec.neg_one_eq_allOnes, BitVec.toNat_allOnes]))
  have hlt := e.isLt
  have hbits : spec.mantissaBitsWithoutImplicit + 1 = spec.mantissaBits := Nat.add_comm _ _
  have hmantissa : BitVec.ofNat spec.mantissaBitsWithoutImplicit
      (2 ^ spec.mantissaBitsWithoutImplicit + m.toNat) = m :=
    BitVec.eq_of_toNat_eq (by rw [BitVec.toNat_ofNat, Nat.add_mod_left, Nat.mod_eq_of_lt hm])
  rw [pack_of_log2_eq s h (by omega) (by rw [hlog, hbits]), hbias, BitVec.ofNat_toNat,
    BitVec.setWidth_eq, hmantissa]

theorem unpack_packComponents_normal (he₀ : e ≠ 0#_) (he : e ≠ -1#_) :
    unpack spec (packComponents spec s e m) =
      .finite s (2 ^ spec.mantissaBitsWithoutImplicit + m.toNat)
        (e.toNat - (spec.exponentBias + spec.mantissaBitsWithoutImplicit)) h := by
  rw [unpack_of_normal (by rwa [unpackExponent_packComponents])
      (by rwa [unpackExponent_packComponents]) (by rwa [unpackMantissa_packComponents]),
    UnpackedFloat.finite.injEq, unpackSign_packComponents, unpackExponent_packComponents,
    unpackMantissa_packComponents, ofBitVec_toBitVec]
  exact ⟨rfl, rfl, rfl⟩

end

/-! ## 2. There and back -/

theorem pack_unpack_bits {b : BitVec Format.binary32.numBits} (hv : Format.binary32.Valid b) :
    pack .binary32 (unpack .binary32 b) = b := by
  have hb := packComponents_fields b
  -- infinite or no number at all; a zero or subnormal; with a leading bit
  by_cases hlast : unpackExponent b = -1#_
  · rw [unpack_of_last hlast]
    split
    next hm => rwa [hlast, hm] at hb
    next hm => exact (hv.eq_packedNaN hlast hm).symm
  by_cases hfirst : unpackExponent b = 0#_
  · rw [hfirst] at hb
    by_cases hm : unpackMantissa b = 0#_
    · rw [unpack_of_zero hfirst hm]
      rwa [hm] at hb
    · rw [unpack_of_subnormal hfirst hm]
      exact (pack_subnormal _ _ _).trans hb
  · have hpos : 0 < 2 ^ 23 + (unpackMantissa b).toNat := by omega
    rw [unpack_of_normal hfirst hlast hpos]
    exact (pack_normal _ _ hpos hlast).trans hb

theorem pack_unpack (x : Float32.Model) : Float32.Model.pack x.unpack = x := by
  obtain ⟨bits, hv⟩ := x
  rw [Float32.Model.mk.injEq]
  exact congrArg UInt32.ofBitVec (pack_unpack_bits hv)

/-- A number with its leading bit in front, within the range of exponents. -/
theorem unpack_pack_of_log2_eq {spec : Format} (s : Sign) {m : Nat} {e : Int} (h : 0 < m)
    (hlog : m.log2 = spec.mantissaBitsWithoutImplicit)
    (he : 0 < e + spec.exponentBias + spec.mantissaBitsWithoutImplicit)
    (he' : e + spec.exponentBias + spec.mantissaBitsWithoutImplicit + 1 <
      (2 ^ spec.exponentBits : Nat)) :
    unpack spec (pack spec (.finite s m e h)) = .finite s m e h := by
  obtain ⟨hlo, hhi⟩ := (Nat.log2_eq_iff (Nat.ne_of_gt h)).mp hlog
  obtain ⟨v, rfl⟩ : ∃ v : BitVec spec.mantissaBitsWithoutImplicit,
      m = 2 ^ spec.mantissaBitsWithoutImplicit + v.toNat :=
    ⟨BitVec.ofNat _ (m - 2 ^ spec.mantissaBitsWithoutImplicit), by
      rw [BitVec.toNat_ofNat, Nat.mod_eq_of_lt (by omega)]; omega⟩
  obtain ⟨w, rfl, hw⟩ : ∃ w : BitVec spec.exponentBits,
      e = w.toNat - (spec.exponentBias + spec.mantissaBitsWithoutImplicit) ∧
        0 < w.toNat ∧ w.toNat + 1 < 2 ^ spec.exponentBits :=
    ⟨BitVec.ofNat _ (e + spec.exponentBias + spec.mantissaBitsWithoutImplicit).toNat, by
      rw [BitVec.toNat_ofNat, Nat.mod_eq_of_lt (by omega)]; omega⟩
  have hw₀ : w ≠ 0#_ := by
    rintro rfl
    simp at hw
  have hw₁ : w ≠ -1#_ := by
    rintro rfl
    rw [BitVec.neg_one_eq_allOnes, BitVec.toNat_allOnes] at hw
    omega
  rw [pack_normal s v h hw₁, unpack_packComponents_normal s v h hw₀ hw₁]

theorem unpack_pack_normal (s : Sign) (m : Nat) (e : Int) (h : 0 < m) (hlog : m.log2 = 23)
    (he : -149 ≤ e) (he' : e ≤ 104) :
    (Float32.Model.pack (.finite s m e h)).unpack = .finite s m e h := by
  refine unpack_pack_of_log2_eq s h hlog ?_ ?_
  · show 0 < e + (127 : Nat) + (23 : Nat)
    omega
  · show e + (127 : Nat) + (23 : Nat) + 1 < (256 : Nat)
    omega

/-! ## 3. The results of operations -/

theorem roundWithAccuracy_of_shift {spec : Format} (s : Sign) {m : Nat} {e t t' : Int}
    {a : Accuracy} {em em' : ExtendedMantissa} (hfirst : shiftToTargetExponent spec m e a = (em, t))
    (hsecond : shiftToTargetExponent spec em.roundedMantissa t .exact = (em', t')) :
    roundWithAccuracy spec s m e a =
      if h : em'.mantissa = 0 then .zero s
      else .finite s em'.mantissa t' (Nat.pos_of_ne_zero h) := by
  delta roundWithAccuracy
  rw [hfirst]
  dsimp only
  rw [hsecond]

theorem add_finite {spec : Format} (s s' : Sign) {m m' : Nat} {e e' : Int} (hm : 0 < m)
    (hm' : 0 < m') :
    UnpackedFloat.add spec (.finite s m e hm) (.finite s' m' e' hm') =
      UnpackedFloat.normalize spec
        (s.apply (decreaseExponent m e (Min.min e e')).1 +
          s'.apply (decreaseExponent m' e' (Min.min e e')).1) (Min.min e e') .positive :=
  rfl

theorem mul_finite {spec : Format} (s s' : Sign) {m m' : Nat} {e e' : Int} (hm : 0 < m)
    (hm' : 0 < m') :
    UnpackedFloat.mul spec (.finite s m e hm) (.finite s' m' e' hm') =
      roundWithAccuracy spec (s * s') (m * m') (e + e') .exact :=
  rfl

theorem div_finite {spec : Format} (s s' : Sign) {m m' : Nat} {e e' : Int} (hm : 0 < m)
    (hm' : 0 < m') :
    UnpackedFloat.div spec (.finite s m e hm) (.finite s' m' e' hm') =
      roundWithAccuracy spec (s / s') (divCore spec m e m' e').1 (divCore spec m e m' e').2.1
        (divCore spec m e m' e').2.2 :=
  rfl

/-! ## 4. Numbers stay numbers -/

theorem isNaN_unpack {spec : Format} {b : BitVec spec.numBits}
    (h : unpackExponent b ≠ -1#_ ∨ unpackMantissa b = 0#_) : (unpack spec b).isNaN = false := by
  by_cases hlast : unpackExponent b = -1#_
  · rw [unpack_of_last hlast, if_pos (h.resolve_left (not_not_intro hlast))]
    rfl
  by_cases hfirst : unpackExponent b = 0#_
  · by_cases hm : unpackMantissa b = 0#_
    · rw [unpack_of_zero hfirst hm]
      rfl
    · rw [unpack_of_subnormal hfirst hm]
      rfl
  · rw [unpack_of_normal hfirst hlast (Nat.add_pos_left (Nat.two_pow_pos _) _)]
    rfl

theorem isNaN_unpack_packComponents (s : Sign) (e : BitVec 8) (m : BitVec 23)
    (h : e ≠ -1#8 ∨ m = 0#23) :
    (unpack .binary32 (packComponents .binary32 s e m)).isNaN = false :=
  isNaN_unpack (by rwa [unpackExponent_packComponents, unpackMantissa_packComponents])

theorem isNaN_unpack_pack {u : UnpackedFloat} (hu : u.isNaN = false) :
    (Float32.Model.pack u).unpack.isNaN = false := by
  show (unpack .binary32 (pack .binary32 u)).isNaN = _
  cases u with
  | notANumber => cases hu
  | infinity | zero => exact isNaN_unpack_packComponents _ _ _ (.inr rfl)
  | finite s m e hm =>
    by_cases hlarge : 2 ^ Format.binary32.exponentBits ≤
        (e + Format.binary32.exponentBias + Format.binary32.mantissaBitsWithoutImplicit).toNat + 1
    · rw [pack_of_large s hm hlarge]
      exact isNaN_unpack_packComponents _ _ _ (.inr rfl)
    by_cases hlog : m.log2 + 1 = Format.binary32.mantissaBits
    · rw [pack_of_log2_eq s hm hlarge hlog]
      refine isNaN_unpack_packComponents _ _ _ (.inl fun heq => hlarge ?_)
      have hbits := congrArg BitVec.toNat heq
      rw [BitVec.toNat_ofNat] at hbits
      change _ % 256 = 255 at hbits
      show 256 ≤ _ + 1
      omega
    · rw [pack_of_log2_ne s hm hlarge hlog]
      exact isNaN_unpack_packComponents _ _ _ (.inl (by decide))

theorem isNaN_dite (s : Sign) (m : Nat) (e : Int) :
    UnpackedFloat.isNaN (if h : m = 0 then .zero s else .finite s m e (Nat.pos_of_ne_zero h)) =
      false := by
  by_cases h : m = 0
  · rw [dif_pos h]
    rfl
  · rw [dif_neg h]
    rfl

theorem isNaN_roundWithAccuracy (s : Sign) (m : Nat) (e : Int) (a : Accuracy) :
    (roundWithAccuracy .binary32 s m e a).isNaN = false :=
  isNaN_dite _ _ _

theorem isNaN_normalize (m e : Int) (s : Sign) :
    (UnpackedFloat.normalize .binary32 m e s).isNaN = false := by
  rw [UnpackedFloat.normalize]
  split
  · exact isNaN_roundWithAccuracy _ _ _ _
  · rfl
  · exact isNaN_roundWithAccuracy _ _ _ _

theorem isNaN_unpacked_add {u v : UnpackedFloat} (hu : u.isNaN = false) (hv : v.isFinite) :
    (UnpackedFloat.add .binary32 u v).isNaN = false := by
  match u, v with
  | .infinity _, .zero _ | .infinity _, .finite .. => rfl
  | .zero _, .finite .. | .finite .., .zero _ => rfl
  | .zero s, .zero s' => cases s <;> cases s' <;> rfl
  | .finite .., .finite .. => exact isNaN_normalize _ _ _

theorem isNaN_add {x y : Float32} (hx : x.isNaN = false) (hy : y.isFinite) :
    (x + y).isNaN = false := isNaN_unpack_pack (isNaN_unpacked_add hx hy)

theorem isNaN_of_isFinite {x : Float32} (h : x.isFinite) : x.isNaN = false := by
  change x.toModel.unpack.isFinite at h
  show x.toModel.unpack.isNaN = false
  generalize x.toModel.unpack = u at h
  cases u with
  | notANumber | infinity => cases h
  | zero | finite => rfl

theorem isNaN_mul_finite {u : UnpackedFloat} (hu : u.isNaN = false) (s : Sign) (m : Nat) (e : Int)
    (hm : 0 < m) : (UnpackedFloat.mul .binary32 u (.finite s m e hm)).isNaN = false := by
  cases u with
  | notANumber => cases hu
  | infinity | zero => rfl
  | finite => exact isNaN_roundWithAccuracy _ _ _ _

/-- A count is multiplied by one on its way to a number. -/
theorem unpack_one :
    (Float32.ofBits 0x3F800000).toModel.unpack = .finite .positive (2 ^ 23) (-23) (by decide) := rfl

theorem isNaN_ofNat (n : Nat) : (Float32.ofNat n).isNaN = false := by
  show (Float32.ofScientific n false 0).isNaN = false
  rw [Float32.ofScientific]
  split
  · refine isNaN_unpack_pack
      (u := UnpackedFloat.mul _ _ (Float32.ofBits 0x3F800000).toModel.unpack) ?_
    rw [unpack_one]
    exact isNaN_mul_finite (isNaN_unpack_pack (isNaN_normalize _ _ _)) _ _ _ _
  · refine isNaN_unpack_pack ?_
    show (UnpackedFloat.ofScientific .binary32 n 0).isNaN = false
    by_cases hn : n = 0
    · rw [UnpackedFloat.ofScientific, dif_pos hn]
      rfl
    · have hsmall : ¬(0 : Int) < -((2 ^ Format.binary32.exponentBits : Int) + n.log2) := by
        show ¬(0 : Int) < -(256 + n.log2)
        omega
      rw [UnpackedFloat.ofScientific, dif_neg hn, if_neg (by decide), if_neg hsmall,
        if_pos (Int.le_refl 0)]
      exact isNaN_mul_finite rfl _ _ _ _

end ContentCard.Number
