import ContentCard.Proofs.Number.Packing
import Mathlib.Data.Int.Order.Basic
import Mathlib.Data.Prod.Lex

/-!
# The order of numbers

Every value but NaN has a rank, and a comparison of values is one of their ranks.  NaN is neither
smaller nor larger than any value.
-/

namespace ContentCard.Number

open Float.Model (UnpackedFloat)
open Float.Model.UnpackedFloat

/-! ## 1. Ranks -/

/-- The kind of a number counts first, then its exponent, then its mantissa. -/
def unpackedRank : UnpackedFloat → Option (ℤ ×ₗ ℤ ×ₗ ℤ)
  | .notANumber => none
  | .infinity .negative => some (toLex (-2, toLex (0, 0)))
  | .finite .negative m e _ => some (toLex (-1, toLex (-e, -m)))
  | .zero _ => some (toLex (0, toLex (0, 0)))
  | .finite .positive m e _ => some (toLex (1, toLex (e, m)))
  | .infinity .positive => some (toLex (2, toLex (0, 0)))

theorem compare_eq (u v : UnpackedFloat) :
    u.compare v = (unpackedRank u).bind fun i => (unpackedRank v).map (compare i) := by
  have hneg (m n : ℤ) : compare (-m) (-n) = (compare m n).swap := by
    rw [Int.compare_swap]
    simp only [compare, compareOfLessAndEq]
    grind
  have hcast (m n : ℕ) : compare (m : ℤ) n = compare m n := by
    simp only [compare, compareOfLessAndEq, Int.ofNat_lt, Int.ofNat_inj]
  cases u <;> cases v <;> (try cases ‹Sign›) <;> (try cases ‹Sign›) <;> try rfl
  -- two finite numbers of one sign are left
  next m e _ m' e' _ =>
    show some ((compare e e').then (compare m m')).swap =
      some ((compare (-e) (-e')).then (compare (-(m : ℤ)) (-m')))
    rw [hneg, hneg, hcast, Ordering.swap_then]
  next m e _ m' e' _ =>
    show some ((compare e e').then (compare m m')) =
      some ((compare e e').then (compare (m : ℤ) m'))
    rw [hcast]

def rank (x : Float32) : Option (ℤ ×ₗ ℤ ×ₗ ℤ) := unpackedRank x.toModel.unpack

theorem lt_iff {x y : Float32} : x < y ↔ ∃ i ∈ rank x, ∃ j ∈ rank y, i < j := by
  have h : x < y ↔ x.toModel.unpack.compare y.toModel.unpack = some .lt :=
    decide_eq_true_iff.trans beq_iff_eq
  rw [h, compare_eq, ← rank, ← rank]
  cases rank x <;> cases rank y <;> simp [compare_lt_iff_lt]

theorem le_iff {x y : Float32} : x ≤ y ↔ ∃ i ∈ rank x, ∃ j ∈ rank y, i ≤ j := by
  have h : x ≤ y ↔ (x.toModel.unpack.compare y.toModel.unpack).any (·.isLE) :=
    decide_eq_true_iff
  rw [h, compare_eq, ← rank, ← rank]
  cases rank x <;> cases rank y <;> simp [Ordering.isLE_iff_ne_gt, compare_le_iff_le]

theorem beq_iff {x y : Float32} : (x == y) = true ↔ ∃ i ∈ rank x, i ∈ rank y := by
  show (x.toModel.unpack.compare y.toModel.unpack == some .eq) = true ↔ _
  rw [beq_iff_eq, compare_eq, ← rank, ← rank]
  cases rank x with
  | none => simp
  | some i =>
    cases rank y with
    | none => simp
    | some j => simpa [compare_eq_iff_eq] using eq_comm

theorem exists_rank_iff {x : Float32} : (∃ i, i ∈ rank x) ↔ x.isNaN = false := by
  show (∃ i, i ∈ unpackedRank x.toModel.unpack) ↔ x.toModel.unpack.isNaN = false
  cases x.toModel.unpack with
  | notANumber => exact ⟨fun ⟨_, h⟩ => (nomatch h), fun h => (nomatch h)⟩
  | infinity s | finite s => cases s <;> exact ⟨fun _ => rfl, fun _ => ⟨_, rfl⟩⟩
  | zero => exact ⟨fun _ => rfl, fun _ => ⟨_, rfl⟩⟩

/-! ## 2. Comparisons -/

variable {x y z : Float32}

theorem le_self (hx : x.isNaN = false) : x ≤ x := by
  obtain ⟨i, hi⟩ := exists_rank_iff.mpr hx
  exact le_iff.mpr ⟨i, hi, i, hi, le_refl i⟩

theorem le_of_lt (h : x < y) : x ≤ y := by
  obtain ⟨i, hi, j, hj, hij⟩ := lt_iff.mp h
  exact le_iff.mpr ⟨i, hi, j, hj, hij.le⟩

theorem isNaN_of_le (h : x ≤ y) : x.isNaN = false ∧ y.isNaN = false := by
  obtain ⟨i, hi, j, hj, -⟩ := le_iff.mp h
  exact ⟨exists_rank_iff.mp ⟨i, hi⟩, exists_rank_iff.mp ⟨j, hj⟩⟩

theorem le_trans (h : x ≤ y) (h' : y ≤ z) : x ≤ z := by
  obtain ⟨i, hi, j, hj, hij⟩ := le_iff.mp h
  obtain ⟨j', hj', k, hk, hjk⟩ := le_iff.mp h'
  obtain rfl := Option.mem_unique hj hj'
  exact le_iff.mpr ⟨i, hi, k, hk, hij.trans hjk⟩

theorem lt_of_lt_of_le (h : x < y) (h' : y ≤ z) : x < z := by
  obtain ⟨i, hi, j, hj, hij⟩ := lt_iff.mp h
  obtain ⟨j', hj', k, hk, hjk⟩ := le_iff.mp h'
  obtain rfl := Option.mem_unique hj hj'
  exact lt_iff.mpr ⟨i, hi, k, hk, hij.trans_le hjk⟩

theorem not_lt_of_le (h : x ≤ y) : ¬y < x := fun h' => by
  obtain ⟨i, hi, j, hj, hij⟩ := lt_iff.mp (lt_of_lt_of_le h' h)
  obtain rfl := Option.mem_unique hi hj
  exact lt_irrefl i hij

theorem le_of_not_lt (hx : x.isNaN = false) (hy : y.isNaN = false) (h : ¬x < y) : y ≤ x := by
  obtain ⟨i, hi⟩ := exists_rank_iff.mpr hx
  obtain ⟨j, hj⟩ := exists_rank_iff.mpr hy
  exact le_iff.mpr ⟨j, hj, i, hi, not_lt.mp fun hij => h (lt_iff.mpr ⟨i, hi, j, hj, hij⟩)⟩

theorem lt_of_not_le (hx : x.isNaN = false) (hy : y.isNaN = false) (h : ¬x ≤ y) : y < x := by
  obtain ⟨i, hi⟩ := exists_rank_iff.mpr hx
  obtain ⟨j, hj⟩ := exists_rank_iff.mpr hy
  exact lt_iff.mpr ⟨j, hj, i, hi, not_le.mp fun hij => h (le_iff.mpr ⟨i, hi, j, hj, hij⟩)⟩

/-! ## 3. The larger and the smaller of two numbers -/

theorem max_eq_or (x y : Float32) : max x y = x ∨ max x y = y := by
  rw [max]
  split
  · exact .inr rfl
  · split
    · exact .inr rfl
    · exact .inl rfl

theorem min_eq_or (x y : Float32) : min x y = x ∨ min x y = y := by
  rw [min]
  split
  · exact .inr rfl
  · split
    · exact .inr rfl
    · exact .inl rfl

theorem le_max (hx : x.isNaN = false) (hy : y.isNaN = false) : x ≤ max x y ∧ y ≤ max x y := by
  rw [max, if_neg (Bool.not_eq_true _ ▸ hx)]
  split
  next h => exact ⟨le_of_lt h, le_self hy⟩
  next h => exact ⟨le_self hx, le_of_not_lt hx hy h⟩

theorem min_le (hx : x.isNaN = false) (hy : y.isNaN = false) : min x y ≤ x ∧ min x y ≤ y := by
  rw [min, if_neg (Bool.not_eq_true _ ▸ hx)]
  split
  next h => exact ⟨le_of_lt h, le_self hy⟩
  next h => exact ⟨le_self hx, le_of_not_lt hy hx h⟩

/-- Only the sign of a zero may change. -/
theorem rank_add_zero (x : Float32) : rank (x + 0) = rank x := by
  show unpackedRank (Float32.Model.pack (UnpackedFloat.add .binary32 x.toModel.unpack
    (.zero .positive))).unpack = unpackedRank x.toModel.unpack
  cases hx : x.toModel.unpack with
  | zero s => cases s <;> rfl
  | notANumber | infinity | finite =>
    rw [← hx]
    have hadd : UnpackedFloat.add .binary32 x.toModel.unpack (.zero .positive) =
        x.toModel.unpack := by
      rw [hx]
      rfl
    rw [hadd, pack_unpack]

theorem add_zero_le (hx : x.isNaN = false) : x + 0 ≤ x := by
  obtain ⟨i, hi⟩ := exists_rank_iff.mpr hx
  exact le_iff.mpr ⟨i, by rwa [rank_add_zero], i, hi, le_refl i⟩

end ContentCard.Number
