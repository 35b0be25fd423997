import ContentCard.Proofs.Number.Value

/-!
# Sums and quotients of scaled numbers

A sum of fewer or smaller numbers is not larger.  Numbers that are all multiplied by one power of
two have sums that are multiplied by it and quotients that stay the same, as long as no sum is too
large and none of the numbers lies between zero and one.
-/

namespace ContentCard.Number

open Float.Model (Format UnpackedFloat totalExponent)
open Float.Model.UnpackedFloat

/-! ## 1. Smaller sums -/

/-- Rounding keeps the order of two numbers. -/
theorem IsRounding.le_of_lt {t g : ℤ} {x y z w : ℚ} (hx : IsRounding t x z)
    (hy : IsRounding g y w) (hnonneg : 0 ≤ x) (hxy : x < y) : z ≤ w := by
  have hxlt := hx.lt
  have hylt := hy.lt
  rw [abs_of_nonneg hnonneg] at hxlt
  rw [abs_of_nonneg (hnonneg.trans hxy.le)] at hylt
  have htg : t ≤ g := by
    obtain rfl | hlead := hx.leading
    · exact hy.least
    · rw [abs_of_nonneg hnonneg] at hlead
      have := lt_of_two_zpow_lt (hlead.trans_lt (hxy.trans hylt))
      omega
  obtain ⟨r, hr⟩ := hy.onGrid
  by_cases hxw : x ≤ w
  · rw [hr] at hxw ⊢
    exact hx.le_of_le htg hxw
  · -- `y` is rounded down past `x`, so both are rounded to one grid
    obtain rfl : t = g := by
      by_contra hne
      have hlead := hy.leading.resolve_left (by have := hx.least; omega)
      rw [abs_of_nonneg (hnonneg.trans hxy.le)] at hlead
      have hw := hy.ge_of_ge (g := g + 23) (by omega) (j := 1) (by rwa [Int.cast_one, one_mul])
      have hstep := two_zpow_le (show t + 24 ≤ g + 23 by omega)
      rw [Int.cast_one, one_mul] at hw
      exact hxw (hxlt.le.trans (hstep.trans hw))
    obtain ⟨i, hi⟩ := hx.onGrid
    have hpos := two_zpow_pos t
    have hz := (abs_le.mp hx.near).2
    have hw := (abs_le.mp hy.near).1
    rw [hi] at hz ⊢
    rw [hr] at hw ⊢
    have hlt : (i : ℚ) < r + 1 := by
      by_contra hle
      have := mul_le_mul_of_nonneg_right (not_lt.mp hle) hpos.le
      linarith
    have hle : i ≤ r := Int.lt_add_one_iff.mp (by exact_mod_cast hlt)
    exact mul_le_mul_of_nonneg_right (by exact_mod_cast hle) hpos.le

section

variable {u v : UnpackedFloat}

theorem IsCanonical.isFinite_pack_iff (h : IsCanonical u) (hu : u.isFinite) :
    (Float32.Model.pack u).unpack.isFinite ↔ |unpackedValue u| < 2 ^ 128 := by
  constructor
  · cases u with
    | notANumber | infinity => cases hu
    | zero => simp
    | finite s m e hm =>
      rw [unpack_pack_finite s hm h]
      by_cases he : e ≤ 104
      · rw [if_pos he, unpackedValue_finite, abs_apply_mul]
        intro
        calc
          (m : ℚ) * 2 ^ e < 2 ^ 24 * 2 ^ (104 : ℤ) :=
            mul_lt_mul (by exact_mod_cast h.1) (two_zpow_le he) (two_zpow_pos e) (by positivity)
          _ = 2 ^ 128 := by norm_num
      · rw [if_neg he]
        exact (nomatch ·)
  · intro hlt
    obtain hsame | hlarge := h.unpack_pack hu
    · rwa [hsame]
    · exact absurd hlt (not_lt.mpr hlarge)

/-- A finite result stands for what was rounded. -/
theorem IsCanonical.unpack_pack_of_isFinite (h : IsCanonical u) (hu : u.isFinite)
    (hpack : (Float32.Model.pack u).unpack.isFinite) : (Float32.Model.pack u).unpack = u :=
  (h.unpack_pack hu).resolve_right (not_le.mpr ((h.isFinite_pack_iff hu).mp hpack))

theorem isFinite_of_isFinite_pack (h : (Float32.Model.pack u).unpack.isFinite) : u.isFinite := by
  cases u with
  | notANumber => cases h
  | infinity s => cases s <;> cases h
  | zero | finite => rfl

theorem isFinite_of_isFinite_add (h : (UnpackedFloat.add .binary32 u v).isFinite) :
    u.isFinite ∧ v.isFinite := by
  cases u <;> cases v <;> first | exact ⟨rfl, rfl⟩ | cases h | skip
  case infinity.infinity s s' => cases s <;> cases s' <;> cases h

/-- Apart from zeros, numbers of one rank are the same. -/
theorem eq_of_unpackedRank_eq (hu : unpackedValue u ≠ 0) (h : unpackedRank u = unpackedRank v) :
    u = v := by
  match u, v with
  | .notANumber, _ | .infinity _, _ | .zero _, _ => exact absurd rfl hu
  -- of one sign, the exponent and the mantissa can be read off the rank
  | .finite .positive m e hm, .finite .positive m' e' hm' =>
    obtain ⟨-, hrest⟩ := Prod.mk.inj (toLex_inj.mp (Option.some.inj h))
    obtain ⟨rfl, hm⟩ := Prod.mk.inj (toLex_inj.mp hrest)
    rw [UnpackedFloat.finite.injEq]
    exact ⟨rfl, Nat.cast_inj.mp hm, rfl⟩
  | .finite .negative m e hm, .finite .negative m' e' hm' =>
    obtain ⟨-, hrest⟩ := Prod.mk.inj (toLex_inj.mp (Option.some.inj h))
    obtain ⟨he, hm⟩ := Prod.mk.inj (toLex_inj.mp hrest)
    rw [UnpackedFloat.finite.injEq]
    exact ⟨rfl, Nat.cast_inj.mp (neg_inj.mp hm), neg_inj.mp he⟩
  | .finite .positive _ _ _, .finite .negative _ _ _
  | .finite .negative _ _ _, .finite .positive _ _ _
  | .finite .positive _ _ _, .zero _ | .finite .negative _ _ _, .zero _
  | .finite .positive _ _ _, .infinity .positive | .finite .positive _ _ _, .infinity .negative
  | .finite .negative _ _ _, .infinity .positive | .finite .negative _ _ _, .infinity .negative =>
    exact absurd (Prod.mk.inj (toLex_inj.mp (Option.some.inj h))).1 (by decide)

end

variable {a b x y : Float32}

theorem isFinite_of_add (h : (x + y).isFinite) : x.isFinite ∧ y.isFinite :=
  isFinite_of_isFinite_add (isFinite_of_isFinite_pack h)

theorem value_add (h : (x + y).isFinite) :
    value (x + y) =
      unpackedValue (UnpackedFloat.add .binary32 x.toModel.unpack y.toModel.unpack) := by
  obtain ⟨hx, hy⟩ := isFinite_of_add h
  have hsum := isRounded_add hx hy
  exact congrArg unpackedValue (hsum.isCanonical.unpack_pack_of_isFinite hsum.isFinite h)

theorem ext_unpack (h : x.toModel.unpack = y.toModel.unpack) : x = y := by
  have hmodel : x.toModel = y.toModel := by rw [← pack_unpack x.toModel, h, pack_unpack]
  exact congrArg Float32.ofModel hmodel

/-- Different numbers have different values, apart from zeros. -/
theorem eq_of_value_eq (hx : x.isFinite) (hy : y.isFinite) (hne : value x ≠ 0)
    (h : value x = value y) : x = y := by
  obtain ⟨i, hi⟩ := exists_rank_iff.mpr (isNaN_of_isFinite hx)
  obtain ⟨j, hj⟩ := exists_rank_iff.mpr (isNaN_of_isFinite hy)
  have hle : ¬x < y := fun hlt => h.not_lt ((lt_iff_value_lt hx hy).mp hlt)
  have hge : ¬y < x := fun hlt => h.not_gt ((lt_iff_value_lt hy hx).mp hlt)
  have hij : i = j := le_antisymm
    (not_lt.mp fun hlt => hge (lt_iff.mpr ⟨j, hj, i, hi, hlt⟩))
    (not_lt.mp fun hlt => hle (lt_iff.mpr ⟨i, hi, j, hj, hlt⟩))
  exact ext_unpack (eq_of_unpackedRank_eq hne (hi.trans (hij ▸ hj.symm)))

/-- Of two results of which the larger one is finite, the smaller one is. -/
theorem IsRounded.pack_le {q r : ℚ} {u v : UnpackedFloat} (hu : IsRounded q u)
    (hv : IsRounded r v) (hnonneg : 0 ≤ q) (hlt : q < r)
    (h : (Float32.Model.pack v).unpack.isFinite) :
    (Float32.Model.pack u).unpack.isFinite ∧
      unpackedValue (Float32.Model.pack u).unpack ≤
        unpackedValue (Float32.Model.pack v).unpack := by
  obtain ⟨t, ht⟩ := hu.isRounding
  obtain ⟨g, hg⟩ := hv.isRounding
  have hle := ht.le_of_lt hg hnonneg hlt
  have hge := ht.ge_of_ge le_rfl (j := 0) (by simpa using hnonneg)
  rw [Int.cast_zero, zero_mul] at hge
  have hlarge := (hv.isCanonical.isFinite_pack_iff hv.isFinite).mp h
  rw [abs_of_nonneg (hge.trans hle)] at hlarge
  have hfinite := (hu.isCanonical.isFinite_pack_iff hu.isFinite).mpr
    (by rw [abs_of_nonneg hge]; exact hle.trans_lt hlarge)
  refine ⟨hfinite, ?_⟩
  rwa [hu.isCanonical.unpack_pack_of_isFinite hu.isFinite hfinite,
    hv.isCanonical.unpack_pack_of_isFinite hv.isFinite h]

theorem add_comm (x y : Float32) : x + y = y + x := by
  have hunpacked (u v : UnpackedFloat) :
      UnpackedFloat.add .binary32 u v = UnpackedFloat.add .binary32 v u := by
    cases u <;> cases v <;> try rfl
    -- two terms of one kind are left
    case infinity.infinity s s' | zero.zero s s' => cases s <;> cases s' <;> rfl
    case finite.finite s m e hm s' m' e' hm' =>
      rw [add_finite, add_finite, min_comm, Int.add_comm]
  exact congrArg (fun u => Float32.ofModel (.pack u)) (hunpacked _ _)

theorem add_of_value_eq_zero (hx : x.isFinite) (hzero : value x = 0) (hy : y.isFinite) :
    (x + y).isFinite ∧ value (x + y) = value y := by
  have hpack := pack_unpack y.toModel
  show (Float32.Model.pack (UnpackedFloat.add .binary32 x.toModel.unpack
      y.toModel.unpack)).unpack.isFinite ∧
    unpackedValue (Float32.Model.pack (UnpackedFloat.add .binary32 x.toModel.unpack
      y.toModel.unpack)).unpack = unpackedValue y.toModel.unpack
  change x.toModel.unpack.isFinite at hx
  change unpackedValue x.toModel.unpack = 0 at hzero
  change y.toModel.unpack.isFinite at hy
  cases hu : x.toModel.unpack with
  | notANumber | infinity => rw [hu] at hx; cases hx
  | finite s m e hm =>
    rw [hu, unpackedValue_finite, ← abs_eq_zero, abs_apply_mul] at hzero
    have hpos : (0 : ℚ) < m * 2 ^ e := mul_pos (by exact_mod_cast hm) (two_zpow_pos e)
    exact absurd hzero hpos.ne'
  | zero s =>
    cases hv : y.toModel.unpack with
    | notANumber | infinity => rw [hv] at hy; cases hy
    | zero s' => cases s <;> cases s' <;> exact ⟨rfl, rfl⟩
    | finite =>
      have hadd : UnpackedFloat.add .binary32 (.zero s) y.toModel.unpack = y.toModel.unpack := by
        rw [hv]
        rfl
      rw [← hv, hadd, hpack]
      exact ⟨hy, rfl⟩

/-- A smaller first term leads to a smaller sum. -/
theorem add_le_add_right (ha : a.isFinite) (hnonneg : 0 ≤ value a) (hab : value a ≤ value b)
    (hy : 0 ≤ value y) (h : (b + y).isFinite) :
    (a + y).isFinite ∧ value (a + y) ≤ value (b + y) := by
  obtain ⟨hb, hy'⟩ := isFinite_of_add h
  obtain heq | hlt := hab.eq_or_lt
  · by_cases hzero : value a = 0
    · obtain ⟨hfinite, hvalue⟩ := add_of_value_eq_zero ha hzero hy'
      exact ⟨hfinite, by rw [hvalue, (add_of_value_eq_zero hb (heq ▸ hzero) hy').2]⟩
    · rw [eq_of_value_eq ha hb hzero heq]
      exact ⟨h, le_rfl⟩
  · exact (isRounded_add ha hy').pack_le (isRounded_add hb hy') (add_nonneg hnonneg hy)
      (by linarith) h

/-- Adding makes nothing smaller. -/
theorem le_add (hnonneg : 0 ≤ value x) (hy : 0 ≤ value y) (h : (x + y).isFinite) :
    value x ≤ value (x + y) := by
  obtain ⟨hx, hy'⟩ := isFinite_of_add h
  obtain hzero | hpos := hy.eq_or_lt
  · rw [add_comm, (add_of_value_eq_zero hy' hzero.symm hx).2]
  · have hle := ((isRounded_unpack hx).pack_le (isRounded_add hx hy') hnonneg (by linarith) h).2
    rwa [pack_unpack] at hle

theorem isFinite_of_foldl_add {xs : List Float32} (h : (xs.foldl (· + ·) a).isFinite) :
    a.isFinite := by
  induction xs generalizing a with
  | nil => exact h
  | cons x rest ih => exact (isFinite_of_add (ih h)).1

/-- Fewer and smaller terms do not lead to a sum that is too large. -/
theorem isFinite_foldl_add {xs ys : List Float32}
    (h : List.SublistForall₂ (fun x y => 0 ≤ value x ∧ value x ≤ value y ∧ x.isFinite) xs ys)
    (hys : ∀ y ∈ ys, 0 ≤ value y) (ha : a.isFinite) (hnonneg : 0 ≤ value a)
    (hab : value a ≤ value b) (hb : (ys.foldl (· + ·) b).isFinite) :
    (xs.foldl (· + ·) a).isFinite := by
  induction h generalizing a b with
  | nil => exact ha
  | cons hxy hrest ih =>
    rename_i x y xs ys
    obtain ⟨hx, hxy, hfinite⟩ := hxy
    have hby : (b + y).isFinite := isFinite_of_foldl_add hb
    have hy : 0 ≤ value y := hys y List.mem_cons_self
    obtain ⟨hay, hle⟩ := add_le_add_right ha hnonneg hab hy hby
    rw [add_comm] at hay hle
    obtain ⟨hxa, hle'⟩ := add_le_add_right hfinite hx hxy hnonneg hay
    have hax := le_add hx hnonneg hxa
    rw [add_comm] at hxa hle' hax
    exact ih (fun y hy => hys y (List.mem_cons_of_mem _ hy)) hxa (hx.trans hax)
      (hle'.trans hle) hb
  | cons_right hrest ih =>
    rename_i y xs ys
    have hle := le_add (hnonneg.trans hab) (hys y List.mem_cons_self) (isFinite_of_foldl_add hb)
    exact ih (fun y hy => hys y (List.mem_cons_of_mem _ hy)) ha hnonneg (hab.trans hle) hb

theorem isFinite_sum {xs ys : List Float32}
    (h : List.SublistForall₂ (fun x y => 0 ≤ value x ∧ value x ≤ value y ∧ x.isFinite) xs ys)
    (hys : ∀ y ∈ ys, 0 ≤ value y) (hsum : (sum ys).isFinite) : (sum xs).isFinite :=
  isFinite_foldl_add h hys (a := 0.0) rfl le_rfl le_rfl hsum

theorem isFinite_sum_of_sublist {xs ys : List Float32} (h : xs.Sublist ys)
    (hys : ∀ y ∈ ys, y.isFinite ∧ 0 ≤ value y) (hsum : (sum ys).isFinite) :
    (sum xs).isFinite := by
  refine isFinite_sum (List.sublistForall₂_iff.mpr ⟨xs, List.forall₂_same.mpr ?_, h⟩)
    (fun y hy => (hys y hy).2) hsum
  intro x hx
  obtain ⟨hfinite, hnonneg⟩ := hys x (h.subset hx)
  exact ⟨hnonneg, le_rfl, hfinite⟩

/-! ## 2. Moving exponents -/

/-- The number with another exponent. -/
def shift (k : ℤ) : UnpackedFloat → UnpackedFloat
  | .finite s m e hm => .finite s m (e + k) hm
  | u => u

theorem unpackedValue_shift (k : ℤ) (u : UnpackedFloat) :
    unpackedValue (shift k u) = unpackedValue u * 2 ^ k := by
  cases u with
  | notANumber | infinity | zero => exact (zero_mul _).symm
  | finite s m e hm =>
    show unpackedValue (.finite s m (e + k) hm) = _
    rw [unpackedValue_finite, unpackedValue_finite, zpow_add₀ two_ne_zero, mul_assoc]

section

variable {m : ℕ} {e k : ℤ} (s : Sign)

/-- Above the subnormal numbers the grid moves along. -/
theorem gridExponent_add (h : -126 ≤ (m.log2 : ℤ) + e) (h' : -126 ≤ (m.log2 : ℤ) + (e + k)) :
    gridExponent m (e + k) = gridExponent m e + k := by
  rw [gridExponent_eq, gridExponent_eq]
  omega

theorem shiftToTargetExponent_add (he : e ≤ gridExponent m e) (h : -126 ≤ (m.log2 : ℤ) + e)
    (h' : -126 ≤ (m.log2 : ℤ) + (e + k)) :
    ∃ em, shiftToTargetExponent .binary32 m e .exact = (em, gridExponent m e) ∧
      shiftToTargetExponent .binary32 m (e + k) .exact = (em, gridExponent m e + k) := by
  have hgrid := gridExponent_add h h'
  have hshift : (gridExponent m e + k - (e + k)).toNat = (gridExponent m e - e).toNat := by omega
  refine ⟨ExtendedMantissa.mk m false false >>> (gridExponent m e - e).toNat,
    shiftToExponent_eq .exact he, ?_⟩
  rw [← hshift, ← hgrid]
  exact shiftToExponent_eq .exact (show e + k ≤ gridExponent m (e + k) by omega)

theorem roundWithAccuracy_shift (hm : 0 < m) (he : e ≤ gridExponent m e)
    (h : -125 ≤ (m.log2 : ℤ) + e) (h' : -125 ≤ (m.log2 : ℤ) + (e + k)) :
    roundWithAccuracy .binary32 s m (e + k) .exact =
      shift k (roundWithAccuracy .binary32 s m e .exact) := by
  obtain ⟨em, hfirst, -, -, -, hlead⟩ := exists_roundedMantissa (stands_exact m) (.inl hm) he
  obtain ⟨em', hsame, hfirst'⟩ := shiftToTargetExponent_add (k := k) he (by omega) (by omega)
  obtain rfl : em = em' := congrArg Prod.fst (hfirst.symm.trans hsame)
  have hgrid : gridExponent m e = (m.log2 : ℤ) + 1 + e - 24 := by
    rw [gridExponent_eq]
    omega
  have hlog : 23 ≤ em.roundedMantissa.log2 := by
    have hlarge := hlead.resolve_left (by omega)
    exact (Nat.le_log2 (by omega)).mpr hlarge
  obtain ⟨em'', hsecond, hsecond'⟩ := shiftToTargetExponent_add (m := em.roundedMantissa)
    (e := gridExponent m e) (k := k) (by rw [gridExponent_eq em.roundedMantissa]; omega)
    (by omega) (by omega)
  rw [roundWithAccuracy_of_shift s hfirst hsecond, roundWithAccuracy_of_shift s hfirst' hsecond']
  by_cases h : em''.mantissa = 0
  · rw [dif_pos h, dif_pos h]
    rfl
  · rw [dif_neg h, dif_neg h]
    rfl

theorem round_shift (hm : 0 < m) (h : -125 ≤ (m.log2 : ℤ) + e)
    (h' : -125 ≤ (m.log2 : ℤ) + (e + k)) :
    UnpackedFloat.round .binary32 s m (e + k) = shift k (UnpackedFloat.round .binary32 s m e) := by
  have hgrid := gridExponent_add (k := k) (show -126 ≤ (m.log2 : ℤ) + e by omega) (by omega)
  have hdecrease := decreaseExponent_eq m e (gridExponent m e)
  have hdecrease' := decreaseExponent_eq m (e + k) (gridExponent m (e + k))
  generalize hj : (e - gridExponent m e).toNat = j at hdecrease
  rw [show e + k - gridExponent m (e + k) = e - gridExponent m e by omega, hj,
    show e + k - (j : ℤ) = e - j + k by ring] at hdecrease'
  have hlog : ((m * 2 ^ j).log2 : ℤ) = m.log2 + j := by
    rw [log2_mul_two_pow hm, Nat.cast_add]
  have hgrid' : gridExponent (m * 2 ^ j) (e - j) = gridExponent m e := by
    rw [gridExponent_eq, gridExponent_eq, hlog]
    congr 1
    ring
  rw [gridExponent] at hdecrease hdecrease'
  simp only [UnpackedFloat.round, hdecrease, hdecrease']
  exact roundWithAccuracy_shift s (Nat.mul_pos hm (Nat.two_pow_pos j)) (by rw [hgrid']; omega)
    (by omega) (by omega)

end

/-- Sums of numbers that are not subnormal. -/
theorem add_shift {m n : ℕ} {e f k : ℤ} (hm : 0 < m) (hn : 0 < n) (hm' : 2 ^ 23 ≤ m)
    (hn' : 2 ^ 23 ≤ n) (he : -149 ≤ e) (hf : -149 ≤ f) (hek : -149 ≤ e + k)
    (hfk : -149 ≤ f + k) :
    UnpackedFloat.add .binary32 (.finite .positive m (e + k) hm)
        (.finite .positive n (f + k) hn) =
      shift k (UnpackedFloat.add .binary32 (.finite .positive m e hm)
        (.finite .positive n f hn)) := by
  generalize hsum : m * 2 ^ (e - Min.min e f).toNat + n * 2 ^ (f - Min.min e f).toNat = r
  have hr : 2 ^ 24 ≤ r := by
    have := Nat.le_mul_of_pos_right m (Nat.two_pow_pos (e - Min.min e f).toNat)
    have := Nat.le_mul_of_pos_right n (Nat.two_pow_pos (f - Min.min e f).toNat)
    omega
  have hlog : 24 ≤ r.log2 := (Nat.le_log2 (by omega)).mpr hr
  have hmin : Min.min (e + k) (f + k) = Min.min e f + k := by omega
  have hadd (t : ℤ) : UnpackedFloat.normalize .binary32
      (Sign.positive.apply (m * 2 ^ (e - Min.min e f).toNat : ℕ) +
        Sign.positive.apply (n * 2 ^ (f - Min.min e f).toNat : ℕ)) t .positive =
        UnpackedFloat.round .binary32 .positive r t := by
    rw [← normalize_apply .positive (by omega) t, ← hsum]
    simp [Sign.apply]
  rw [add_finite, add_finite]
  simp only [decreaseExponent_eq, hmin, add_sub_add_right_eq_sub, hadd]
  exact round_shift .positive (by omega) (by omega) (by omega)

theorem div_shift (s s' : Sign) {m n : ℕ} (hm : 0 < m) (hn : 0 < n) (e f k : ℤ) :
    UnpackedFloat.div .binary32 (.finite s m (e + k) hm) (.finite s' n (f + k) hn) =
      UnpackedFloat.div .binary32 (.finite s m e hm) (.finite s' n f hn) := by
  have htotal : totalExponent m (e + k) - totalExponent n (f + k) =
      totalExponent m e - totalExponent n f := by
    rw [totalExponent, totalExponent, totalExponent, totalExponent]
    ring
  rw [div_finite, div_finite]
  simp only [divCore, htotal, add_sub_add_right_eq_sub]

/-! ## 3. Proportional numbers -/

/-- Both numbers are finite, and the second one is the first one times a power of two. -/
structure Scaled (k : ℤ) (x y : Float32) : Prop where
  isFinite_left : x.isFinite
  isFinite_right : y.isFinite
  value_eq : value y = value x * 2 ^ k

/-- Both numbers are zero, or they are scaled and neither is smaller than one. -/
def Proportional (k : ℤ) (x y : Float32) : Prop :=
  x = 0 ∧ y = 0 ∨ Scaled k x y ∧ 1 ≤ value x ∧ 1 ≤ value y

variable {k : ℤ}

theorem Scaled.of_unpack {u : UnpackedFloat} (hx : x.toModel.unpack = u)
    (hy : y.toModel.unpack = shift k u) (hfinite : u.isFinite) : Scaled k x y := by
  refine ⟨?_, ?_, ?_⟩
  · show x.toModel.unpack.isFinite
    rwa [hx]
  · show y.toModel.unpack.isFinite
    rw [hy]
    cases u with
    | notANumber | infinity => cases hfinite
    | zero | finite => rfl
  · rw [value, value, hx, hy, unpackedValue_shift]

theorem Scaled.pos_iff (h : Scaled k x y) : 0 < x ↔ 0 < y := by
  rw [lt_iff_value_lt rfl h.isFinite_left, lt_iff_value_lt rfl h.isFinite_right, h.value_eq]
  exact (mul_pos_iff_of_pos_right (two_zpow_pos k)).symm

theorem Scaled.proportional (h : Scaled k x y) (hx : 1 ≤ x) (hy : 1 ≤ y) : Proportional k x y := by
  have hone {x : Float32} (hfinite : x.isFinite) (hx : 1 ≤ x) : 1 ≤ value x := by
    have hlt := not_lt_of_le hx
    have hvalue : value 1 = (1 : ℕ) := value_ofNat (by decide)
    rwa [lt_iff_value_lt hfinite rfl, not_lt, hvalue, Nat.cast_one] at hlt
  exact .inr ⟨h, hone h.isFinite_left hx, hone h.isFinite_right hy⟩

theorem exists_unpack_of_one_le (hx : x.isFinite) (h : 1 ≤ value x) :
    ∃ m e hm, x.toModel.unpack = .finite .positive m e hm ∧ 2 ^ 23 ≤ m ∧ m < 2 ^ 24 ∧
      -24 < e := by
  have hcanonical := isCanonical_unpack x
  change x.toModel.unpack.isFinite at hx
  change 1 ≤ unpackedValue x.toModel.unpack at h
  generalize x.toModel.unpack = u at *
  cases u with
  | notANumber | infinity => cases hx
  | zero => norm_num at h
  | finite s m e hm =>
    cases s with
    | negative =>
      have hpos : (0 : ℚ) < m * 2 ^ e := mul_pos (by exact_mod_cast hm) (two_zpow_pos e)
      rw [unpackedValue_finite, Sign.apply] at h
      push_cast at h
      linarith
    | positive =>
      obtain ⟨hlt, -, hlead⟩ := hcanonical
      change (1 : ℚ) ≤ m * 2 ^ e at h
      have he : -24 < e := by
        have hone : (2 : ℚ) ^ (0 : ℤ) < 2 ^ (24 + e) := by
          rw [zpow_zero, zpow_add₀ two_ne_zero]
          refine h.trans_lt (mul_lt_mul_of_pos_right ?_ (two_zpow_pos e))
          exact_mod_cast hlt
        have := lt_of_two_zpow_lt hone
        omega
      exact ⟨m, e, hm, rfl, hlead.resolve_left (by omega), hlt, he⟩

theorem Scaled.exists_unpack (h : Scaled k x y) (hx : 1 ≤ value x) (hy : 1 ≤ value y) :
    ∃ m e hm, x.toModel.unpack = .finite .positive m e hm ∧
      y.toModel.unpack = .finite .positive m (e + k) hm ∧ 2 ^ 23 ≤ m ∧ -24 < e ∧
      -24 < e + k := by
  obtain ⟨m, e, hm, hux, hlead, hlt, he⟩ := exists_unpack_of_one_le h.isFinite_left hx
  obtain ⟨n, f, hn, huy, hlead', hlt', hf⟩ := exists_unpack_of_one_le h.isFinite_right hy
  have hvalue : (n : ℚ) * 2 ^ f = m * 2 ^ (e + k) := by
    have := h.value_eq
    rw [value, value, hux, huy] at this
    rw [zpow_add₀ two_ne_zero, ← mul_assoc]
    exact this
  have hek : -24 < e + k := by
    have hone : (2 : ℚ) ^ (0 : ℤ) < 2 ^ (24 + (e + k)) := by
      rw [zpow_zero, zpow_add₀ two_ne_zero]
      rw [value, huy] at hy
      refine (hy.trans_eq hvalue).trans_lt (mul_lt_mul_of_pos_right ?_ (two_zpow_pos _))
      exact_mod_cast hlt
    have := lt_of_two_zpow_lt hone
    omega
  have hle : ¬(f < e + k ∨ f = e + k ∧ n < m) := fun hlt =>
    hvalue.not_lt (mul_two_zpow_lt hlt' (by omega) (.inr hlead) hlt)
  have hge : ¬(e + k < f ∨ e + k = f ∧ m < n) := fun hlt' =>
    hvalue.not_gt (mul_two_zpow_lt hlt (by omega) (.inr hlead') hlt')
  obtain rfl : f = e + k := by omega
  obtain rfl : n = m := by omega
  exact ⟨n, e, hm, hux, huy, hlead, he, hek⟩

namespace Proportional

theorem symm (h : Proportional k x y) : Proportional (-k) y x := by
  obtain ⟨hx, hy⟩ | ⟨hscaled, hx, hy⟩ := h
  · exact .inl ⟨hy, hx⟩
  · refine .inr ⟨⟨hscaled.isFinite_right, hscaled.isFinite_left, ?_⟩, hy, hx⟩
    rw [hscaled.value_eq, mul_assoc, ← zpow_add₀ two_ne_zero, add_neg_cancel, zpow_zero, mul_one]

theorem forall₂_symm {xs ys : List Float32} (h : List.Forall₂ (Proportional k) xs ys) :
    List.Forall₂ (Proportional (-k)) ys xs :=
  (h.imp fun _ _ => symm).flip

theorem isFinite_left (h : Proportional k x y) : x.isFinite := by
  obtain ⟨rfl, -⟩ | ⟨h, -⟩ := h
  · rfl
  · exact h.isFinite_left

theorem nonneg_left (h : Proportional k x y) : 0 ≤ value x := by
  obtain ⟨rfl, -⟩ | ⟨-, h, -⟩ := h
  · exact le_rfl
  · exact zero_le_one.trans h

theorem forall_nonneg {xs ys : List Float32} (h : List.Forall₂ (Proportional k) xs ys) :
    ∀ x ∈ xs, x.isFinite ∧ 0 ≤ value x := by
  induction h with
  | nil => exact fun x hx => nomatch hx
  | cons hxy _ ih =>
    exact List.forall_mem_cons.mpr ⟨⟨hxy.isFinite_left, hxy.nonneg_left⟩, ih⟩

theorem add (h : Proportional k a b) (h' : Proportional k x y) (hleft : (a + x).isFinite)
    (hright : (b + y).isFinite) : Proportional k (a + x) (b + y) := by
  have hzero {x y : Float32} (h : Scaled k x y) (hx : 1 ≤ value x) (hy : 1 ≤ value y) :
      0 + x = x ∧ 0 + y = y := by
    have hone {x : Float32} (hfinite : x.isFinite) (hx : 1 ≤ value x) : 0 + x = x := by
      obtain ⟨hsum, hvalue⟩ := add_of_value_eq_zero (x := 0) rfl rfl hfinite
      exact eq_of_value_eq hsum hfinite (by rw [hvalue]; linarith) hvalue
    exact ⟨hone h.isFinite_left hx, hone h.isFinite_right hy⟩
  obtain ⟨rfl, rfl⟩ | ⟨hscaled, ha, hb⟩ := h
  · obtain ⟨rfl, rfl⟩ | ⟨hscaled', hx, hy⟩ := h'
    · exact .inl ⟨rfl, rfl⟩
    · obtain ⟨hx', hy'⟩ := hzero hscaled' hx hy
      rw [hx', hy']
      exact .inr ⟨hscaled', hx, hy⟩
  · obtain ⟨rfl, rfl⟩ | ⟨hscaled', hx, hy⟩ := h'
    · obtain ⟨ha', hb'⟩ := hzero hscaled ha hb
      rw [add_comm, add_comm b, ha', hb']
      exact .inr ⟨hscaled, ha, hb⟩
    · have hle := le_add (zero_le_one.trans ha) (zero_le_one.trans hx) hleft
      have hle' := le_add (zero_le_one.trans hb) (zero_le_one.trans hy) hright
      refine .inr ⟨⟨hleft, hright, ?_⟩, ha.trans hle, hb.trans hle'⟩
      obtain ⟨m, e, hm, hua, hub, hlead, he, hek⟩ := hscaled.exists_unpack ha hb
      obtain ⟨n, f, hn, hux, huy, hlead', hf, hfk⟩ := hscaled'.exists_unpack hx hy
      rw [value_add hleft, value_add hright, hua, hub, hux, huy,
        add_shift hm hn hlead hlead' (by omega) (by omega) (by omega) (by omega),
        unpackedValue_shift]

theorem foldl_add {xs ys : List Float32} (h : List.Forall₂ (Proportional k) xs ys)
    (hab : Proportional k a b) (hleft : (xs.foldl (· + ·) a).isFinite)
    (hright : (ys.foldl (· + ·) b).isFinite) :
    Proportional k (xs.foldl (· + ·) a) (ys.foldl (· + ·) b) := by
  induction h generalizing a b with
  | nil => exact hab
  | cons hxy hrest ih =>
    exact ih (hab.add hxy (isFinite_of_foldl_add hleft) (isFinite_of_foldl_add hright)) hleft
      hright

theorem sum {xs ys : List Float32} (h : List.Forall₂ (Proportional k) xs ys)
    (hleft : (Number.sum xs).isFinite) (hright : (Number.sum ys).isFinite) :
    Proportional k (Number.sum xs) (Number.sum ys) :=
  foldl_add h (a := 0.0) (b := 0.0) (.inl ⟨rfl, rfl⟩) hleft hright

/-- A share of the whole is the same. -/
theorem div_eq (h : Proportional k x y) (h' : Proportional k a b) (ha : 0 < a) :
    x / a = y / b := by
  have hdiv (x a : Float32) : x / a =
      .ofModel (.pack (UnpackedFloat.div .binary32 x.toModel.unpack a.toModel.unpack)) := rfl
  obtain ⟨rfl, rfl⟩ | ⟨hscaled', ha, hb⟩ := h'
  · exact absurd ha (by decide)
  obtain ⟨m, e, hm, hua, hub, -⟩ := hscaled'.exists_unpack ha hb
  rw [hdiv, hdiv, hua, hub]
  obtain ⟨rfl, rfl⟩ | ⟨hscaled, hx, hy⟩ := h
  · rfl
  · obtain ⟨n, f, hn, hux, huy, -⟩ := hscaled.exists_unpack hx hy
    rw [hux, huy, div_shift]

/-- Nothing lies between zero and one. -/
theorem lt_one_iff (h : Proportional k x y) : x < 1 ↔ x = 0 ∧ y = 0 := by
  constructor
  · intro hlt
    obtain hzero | ⟨hscaled, hx, -⟩ := h
    · exact hzero
    · have hone : value 1 = (1 : ℕ) := value_ofNat (by decide)
      rw [lt_iff_value_lt hscaled.isFinite_left rfl, hone, Nat.cast_one] at hlt
      exact absurd hx (not_le.mpr hlt)
  · rintro ⟨rfl, -⟩
    decide

theorem lt_one_iff_lt_one (h : Proportional k x y) : x < 1 ↔ y < 1 := by
  rw [h.lt_one_iff, h.symm.lt_one_iff, and_comm]

theorem pos_iff (h : Proportional k x y) : 0 < x ↔ 0 < y := by
  obtain ⟨rfl, rfl⟩ | ⟨hscaled, hx, hy⟩ := h
  · exact Iff.rfl
  · rw [lt_iff_value_lt rfl hscaled.isFinite_left, lt_iff_value_lt rfl hscaled.isFinite_right,
      value_zero]
    exact iff_of_true (by linarith) (by linarith)

theorem beq_zero (h : Proportional k x y) : (x == 0) = (y == 0) := by
  obtain ⟨rfl, rfl⟩ | ⟨hscaled, hx, hy⟩ := h
  · rfl
  · obtain ⟨m, e, hm, hux, huy, -⟩ := hscaled.exists_unpack hx hy
    have hbeq (x : Float32) : (x == 0) = (x.toModel.unpack.compare (.zero .positive) == some .eq) :=
      rfl
    rw [hbeq, hbeq, hux, huy]
    rfl

end Proportional

end ContentCard.Number
