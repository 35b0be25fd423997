import ContentCard.Proofs.Number.Double
import ContentCard.Json.Value

/-!
# What JSON numbers stand for

A JSON number is narrowed twice on its way into a style, from a whole number to 64 bits and from
there to 32.  What the result is compared with are zero, one and the largest number, so the first
step does not matter: it moves no number past one of them.
-/

namespace ContentCard.Json.Number

open ContentCard.Number

/-- A whole number below zero is a `negative`, and a text has no infinite numbers. -/
def IsValid : Number → Prop
  | .natural _ => True
  | .negative n => n < 0
  | .real x => x.isFinite

instance : (v : Number) → Decidable v.IsValid
  | .natural _ => inferInstanceAs (Decidable True)
  | .negative n => inferInstanceAs (Decidable (n < 0))
  | .real x => inferInstanceAs (Decidable (x.isFinite = true))

def value : Number → ℚ
  | .natural n => n.toNat
  | .negative n => n.toInt
  | .real x => doubleValue x

/-- The number in a style. -/
def narrowed (v : Number) : Float32 := narrow v.toFloat

theorem doubleValue_zero : doubleValue (UInt64.toFloat 0) = 0 := by
  have hparts : Dyadic.ofFloat (UInt64.toFloat 0) = ⟨false, 0, -1074⟩ := by decide
  simp [doubleValue, hparts, Dyadic.value, Dyadic.signed]

theorem doubleValue_neg_one : doubleValue (-(Float.ofNat 1)) = -1 := by
  have hparts : Dyadic.ofFloat (-(Float.ofNat 1)) = ⟨true, 2 ^ 52, -52⟩ := by decide
  norm_num [doubleValue, hparts, Dyadic.value, Dyadic.signed]

/-- Both numbers are whole ones, on the same side of zero and of minus one. -/
inductive SameSide (q r : ℚ) : Prop
  | above (hq : 1 ≤ q) (hq' : q < 2 ^ 66) (hr : 1 ≤ r) (hr' : r < 2 ^ 66)
  | below (hq : q ≤ -2) (hq' : -2 ^ 66 < q) (hr : r ≤ -2) (hr' : -2 ^ 66 < r)

variable {v : Number}

theorem doubleValue_toFloat_or (hv : v.IsValid) : v.toFloat.isFinite ∧
    (doubleValue v.toFloat = v.value ∨ SameSide (doubleValue v.toFloat) v.value) := by
  cases v with
  | natural n =>
    obtain hzero | hpos := Nat.eq_zero_or_pos n.toNat
    · obtain rfl : n = 0 := UInt64.toNat_inj.mp hzero
      exact ⟨by decide, .inl doubleValue_zero⟩
    · obtain ⟨hfinite, hlow, hhigh⟩ := ContentCard.Number.doubleValue_toFloat hpos
      have hlow' : (1 : ℚ) ≤ n.toNat := by exact_mod_cast hpos
      have hhigh' : (n.toNat : ℚ) < 2 ^ 66 := by exact_mod_cast n.toNat_lt.trans (by decide)
      exact ⟨hfinite, .inr (.above hlow hhigh hlow' hhigh')⟩
  | negative n =>
    have hneg : n.toInt < 0 := Int64.lt_iff_toInt_lt.mp hv
    have hleast := n.le_toInt
    -- minus one itself is a threshold, and has to be kept
    obtain hone | hmore : n.toInt = -1 ∨ n.toInt ≤ -2 := by omega
    · obtain rfl : n = -1 := Int64.toInt_inj.mp hone
      exact ⟨by decide, .inl doubleValue_neg_one⟩
    · obtain ⟨hfinite, hhigh, hlow⟩ := doubleValue_neg_ofNat (m := n.toInt.natAbs) (by omega)
        (by omega)
      have hhigh' : (n.toInt : ℚ) ≤ -2 := by exact_mod_cast hmore
      have hlow' : (-2 ^ 66 : ℚ) < n.toInt := by
        have : -2 ^ 66 < n.toInt := by omega
        exact_mod_cast this
      exact ⟨hfinite, .inr (.below hhigh hlow hhigh' hlow')⟩
  | real x => exact ⟨hv, .inl rfl⟩

/-- What holds on a side as a whole does not depend on the first step. -/
theorem iff_of_sameSide {P : ℚ → Prop} (hv : v.IsValid)
    (hP : ∀ q r, SameSide q r → (P q ↔ P r)) : P (doubleValue v.toFloat) ↔ P v.value := by
  obtain ⟨-, heq | hside⟩ := doubleValue_toFloat_or hv
  · rw [heq]
  · exact hP _ _ hside

section

variable (hv : v.IsValid)

include hv

theorem isFinite_toFloat : v.toFloat.isFinite := (doubleValue_toFloat_or hv).1

theorem rounds_narrowed : Rounds (doubleValue v.toFloat) v.narrowed :=
  rounds_narrow (isFinite_toFloat hv)

theorem isFinite_narrowed_iff : v.narrowed.isFinite ↔ |v.value| < 2 ^ 128 - 2 ^ 103 := by
  rw [(rounds_narrowed hv).isFinite_iff]
  refine iff_of_sameSide (P := fun q => |q| < 2 ^ 128 - 2 ^ 103) hv fun q r h => ?_
  have hlarge : (2 ^ 66 : ℚ) < 2 ^ 128 - 2 ^ 103 := by norm_num
  cases h with
  | above hq hq' hr hr' =>
    rw [abs_of_pos (by linarith), abs_of_pos (by linarith)]
    exact iff_of_true (hq'.trans hlarge) (hr'.trans hlarge)
  | below hq hq' hr hr' =>
    rw [abs_of_neg (by linarith), abs_of_neg (by linarith)]
    exact iff_of_true (by linarith) (by linarith)

theorem pos_narrowed_iff : 0 < v.narrowed ↔ 1 / 2 ^ 150 < v.value := by
  rw [(rounds_narrowed hv).pos_iff]
  refine iff_of_sameSide (P := fun q => 1 / 2 ^ 150 < q) hv fun q r h => ?_
  have hsmall : (1 / 2 ^ 150 : ℚ) < 1 := by norm_num
  have hsmall' : (-2 : ℚ) < 1 / 2 ^ 150 := by norm_num
  cases h with
  | above hq _ hr _ => exact iff_of_true (hsmall.trans_le hq) (hsmall.trans_le hr)
  | below hq _ hr _ =>
    exact iff_of_false (hq.trans_lt hsmall').not_gt (hr.trans_lt hsmall').not_gt

theorem nonneg_narrowed_iff : 0 ≤ v.narrowed ↔ -(1 / 2 ^ 150) ≤ v.value := by
  rw [(rounds_narrowed hv).nonneg_iff]
  refine iff_of_sameSide (P := fun q => -(1 / 2 ^ 150) ≤ q) hv fun q r h => ?_
  have hsmall : (-(1 / 2 ^ 150) : ℚ) ≤ 1 := by norm_num
  have hsmall' : (-2 : ℚ) < -(1 / 2 ^ 150) := by norm_num
  cases h with
  | above hq _ hr _ => exact iff_of_true (hsmall.trans hq) (hsmall.trans hr)
  | below hq _ hr _ => exact iff_of_false (hq.trans_lt hsmall').not_ge (hr.trans_lt hsmall').not_ge

theorem narrowed_beq_neg_one_iff : (v.narrowed == -1) = true ↔
    -1 - 1 / 2 ^ 24 ≤ v.value ∧ v.value ≤ -1 + 1 / 2 ^ 25 := by
  rw [(rounds_narrowed hv).beq_neg_one_iff]
  refine iff_of_sameSide (P := fun q => -1 - 1 / 2 ^ 24 ≤ q ∧ q ≤ -1 + 1 / 2 ^ 25) hv
    fun q r h => ?_
  have hhigh : (-1 + 1 / 2 ^ 25 : ℚ) < 1 := by norm_num
  have hlow : (-2 : ℚ) < -1 - 1 / 2 ^ 24 := by norm_num
  cases h with
  | above hq _ hr _ =>
    exact iff_of_false (fun h => by linarith [h.2]) (fun h => by linarith [h.2])
  | below hq _ hr _ =>
    exact iff_of_false (fun h => by linarith [h.1]) (fun h => by linarith [h.1])

end

end ContentCard.Json.Number
