import ContentCard.Proofs.Json.Number
import ContentCard.Style.Declarations

/-!
# Entries that are integers

An entry is read as an integer of 64 bits.  Of a number with a fraction there is none, and the
default is left.  A whole number is read as it is, unless it does not fit: one of these, too, is
taken for an integer, the last one on its side.
-/

namespace ContentCard

open Json
open ContentCard.Number (Dyadic doubleValue)

/-! ## 1. The ends of 64 bits -/

/-- The integer of 64 bits that is next to an integer. -/
def nearestInt64 (m : ℤ) : ℤ := max (-2 ^ 63) (min (2 ^ 63 - 1) m)

theorem nearestInt64_of_mem {m : ℤ} (hlow : -2 ^ 63 ≤ m) (hhigh : m < 2 ^ 63) :
    nearestInt64 m = m := by
  rw [nearestInt64]
  omega

theorem nearestInt64_of_ge {m : ℤ} (h : 2 ^ 63 ≤ m) : nearestInt64 m = 2 ^ 63 - 1 := by
  rw [nearestInt64]
  omega

/-! ## 2. Numbers -/

namespace Json.Number

theorem int?_of_value_eq {v : Json.Number} (hv : v.IsValid) {m : ℤ} (h : v.value = m) :
    v.int? = some (nearestInt64 m) := by
  cases v with
  | natural k =>
    have hk : (k.toNat : ℚ) = m := h
    obtain rfl : (k.toNat : ℤ) = m := by exact_mod_cast hk
    rw [int?]
    split
    next hsmall => rw [nearestInt64_of_mem] <;> omega
    next hlarge =>
      rw [nearestInt64_of_ge (by omega)]
      rfl
  | negative k =>
    obtain rfl : k.toInt = m := Int.cast_inj.mp h
    rw [nearestInt64_of_mem k.le_toInt k.toInt_lt]
    rfl
  | real x =>
    have hx : x.isFinite := hv
    have hwhole : (Dyadic.ofFloat x).isWhole := Dyadic.isWhole_iff.mpr ⟨m, h⟩
    rw [int?, if_pos (by rw [hx, hwhole]; rfl), Dyadic.trunc_eq h]
    rfl

theorem int?_of_value_ne {v : Json.Number} (h : ∀ m : ℤ, v.value ≠ m) : v.int? = none := by
  cases v with
  | natural k => exact absurd rfl (h k.toNat)
  | negative k => exact absurd rfl (h k.toInt)
  | real x =>
    have hwhole : ¬(Dyadic.ofFloat x).isWhole := fun hwhole =>
      let ⟨m, hm⟩ := Dyadic.isWhole_iff.mp hwhole
      h m hm
    rw [int?]
    exact if_neg (by simp [hwhole])

theorem int?_eq_some_iff {v : Json.Number} (hv : v.IsValid) {n : ℤ} :
    v.int? = some n ↔ ∃ m : ℤ, v.value = m ∧ n = nearestInt64 m := by
  constructor
  · intro hn
    by_contra hnone
    have hvalue : ∀ m : ℤ, v.value ≠ m := by
      intro m hm
      rw [int?_of_value_eq hv hm] at hn
      exact hnone ⟨m, hm, (Option.some.inj hn).symm⟩
    rw [int?_of_value_ne hvalue] at hn
    cases hn
  · rintro ⟨m, hm, rfl⟩
    exact int?_of_value_eq hv hm

/-- A natural number that does not fit is read as the float next to it is read. -/
theorem int?_natural_eq_real {n : UInt64} (hn : 2 ^ 63 ≤ n.toNat) :
    int? (.natural n) = int? (.real n.toFloat) := by
  have hlog : n.toNat.log2 = 63 := (Nat.log2_eq_iff (by omega)).mpr ⟨hn, n.toNat_lt⟩
  obtain ⟨p, hp, hleads⟩ := ContentCard.Number.leads_toFloat (n := n) (by omega)
  have hfinite := hleads.isFinite
  obtain ⟨m, e, hm, hunpack, hlead, he⟩ := hleads
  -- the last bit stands for more than one
  obtain ⟨k, rfl⟩ : ∃ k : ℕ, e = k + 11 := ⟨(e - 11).toNat, by omega⟩
  have hvalue : doubleValue n.toFloat = ((m * 2 ^ (k + 11) : ℕ) : ℤ) := by
    have hexponent : ((k : ℤ) + 11) = ((k + 11 : ℕ) : ℤ) := by push_cast; rfl
    rw [ContentCard.Number.doubleValue_eq hfinite, hunpack,
      ContentCard.Number.unpackedValue_finite, hexponent, zpow_natCast]
    push_cast
    rfl
  have hlarge : 2 ^ 63 ≤ m * 2 ^ (k + 11) := by
    obtain ⟨hm, -⟩ := (Nat.log2_eq_iff hm.ne').mp hlead
    calc
      2 ^ 63 = 2 ^ 52 * 2 ^ 11 := rfl
      _ ≤ m * 2 ^ (k + 11) := Nat.mul_le_mul hm (Nat.pow_le_pow_right (by decide) (by omega))
  rw [int?_of_value_eq (v := .natural n) trivial (m := n.toNat) rfl,
    int?_of_value_eq (v := .real n.toFloat) hfinite hvalue,
    nearestInt64_of_ge (by exact_mod_cast hn), nearestInt64_of_ge (by exact_mod_cast hlarge)]

end Json.Number

/-! ## 3. Entries -/

namespace Declarations

variable {d : Declarations} {key : String} {v : Json.Number}

/-- A number is read as an integer exactly if it is one, as the one of 64 bits next to it.  Any
other number leaves the default. -/
theorem int?_number (hv : v.IsValid) (h : d.get? key = some (.number v)) :
    (∀ n : ℤ, d.int? key = some n ↔ ∃ m : ℤ, v.value = m ∧ n = nearestInt64 m) ∧
      ∀ default : ℤ, (∀ m : ℤ, v.value ≠ m) → (d.int? key).getD default = default := by
  have hint : d.int? key = v.int? := by
    rw [int?, h]
    rfl
  rw [hint]
  refine ⟨fun n => Json.Number.int?_eq_some_iff hv, fun default hvalue => ?_⟩
  rw [Json.Number.int?_of_value_ne hvalue, Option.getD_none]

/-- The last integer of 64 bits is read as it is. -/
theorem int?_number_last :
    let d : Declarations := ⟨[("last", .number (.natural 0x7fffffffffffffff))]⟩
    (Json.Number.natural 0x7fffffffffffffff).IsValid ∧
      d.get? "last" = some (.number (.natural 0x7fffffffffffffff)) ∧
      d.int? "last" = some (2 ^ 63 - 1) := by
  intro d
  have hlast : d.get? "last" = some (.number (.natural 0x7fffffffffffffff)) := rfl
  have hv : (Json.Number.natural 0x7fffffffffffffff).IsValid := trivial
  refine ⟨hv, hlast, ((int?_number hv hlast).1 _).mpr ⟨2 ^ 63 - 1, ?_, rfl⟩⟩
  have hnat : (0x7fffffffffffffff : UInt64).toNat = 2 ^ 63 - 1 := rfl
  norm_num [Json.Number.value, hnat]

/-- The integer behind the last one does not fit, and is read as the last one. -/
theorem not_forall_int?_number :
    ¬∀ (d : Declarations) (key : String) (v : Json.Number),
      v.IsValid → d.get? key = some (.number v) →
      (∀ n : ℤ, d.int? key = some n ↔ v.value = n ∧ -2 ^ 63 ≤ n ∧ n < 2 ^ 63) ∧
        ∀ default : ℤ, (¬∃ n : ℤ, v.value = n ∧ -2 ^ 63 ≤ n ∧ n < 2 ^ 63) →
          (d.int? key).getD default = default := by
  intro h
  let v : Json.Number := .natural 0x8000000000000000
  obtain ⟨hexact, -⟩ := h ⟨[("behind", .number v)]⟩ "behind" v trivial rfl
  obtain ⟨hvalue, -, -⟩ := (hexact (2 ^ 63 - 1)).mp rfl
  have hbehind : v.value = (2 ^ 63 : ℤ) := by
    have hnat : (0x8000000000000000 : UInt64).toNat = 2 ^ 63 := rfl
    simp [v, Json.Number.value, hnat]
  rw [hbehind] at hvalue
  exact absurd (Int.cast_inj.mp hvalue) (by decide)

end Declarations

end ContentCard
