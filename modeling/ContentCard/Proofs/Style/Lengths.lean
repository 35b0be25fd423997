import ContentCard.Proofs.Json.Number
import ContentCard.Proofs.Layout.MainAxis

/-!
# Lengths that are numbers

A width or height that is a number is to fill its axis if it is -1, to be in points if it is not
negative, and to be left open otherwise.  It is compared after it was narrowed to 32 bits, so the
numbers that are rounded to -1 fill as well, and the numbers that are rounded to zero are points.
-/

namespace ContentCard

open Json

namespace Declarations

variable {d : Declarations} {key : String}

theorem number?_of_get? {v : Json.Number} (hv : v.IsValid) (h : d.get? key = some (.number v)) :
    d.number? key = some v.toFloat := by
  rw [number?, h]
  exact Option.filter_eq_some_iff.mpr ⟨rfl, Json.Number.isFinite_toFloat hv⟩

theorem float?_of_get? {v : Json.Number} (hv : v.IsValid) (h : d.get? key = some (.number v)) :
    d.float? key = some v.narrowed := by
  rw [float?, number?_of_get? hv h]
  rfl

end Declarations

namespace Length

/-- Numbers that are taken for -1.  Below one the numbers of 32 bits are twice as dense. -/
def RoundsToFill (q : ℚ) : Prop := -1 - 1 / 2 ^ 24 ≤ q ∧ q ≤ -1 + 1 / 2 ^ 25

/-- Numbers that are taken for points; the least positive number of 32 bits is `2 ^ -149`. -/
def RoundsToPoints (q : ℚ) : Prop := -(1 / 2 ^ 150) ≤ q

theorem not_roundsToFill_of_roundsToPoints {q : ℚ} (h : RoundsToPoints q) : ¬RoundsToFill q := by
  intro hfill
  have hbetween : (-1 + 1 / 2 ^ 25 : ℚ) < -(1 / 2 ^ 150) := by norm_num
  exact absurd (h.trans hfill.2) (not_le.mpr hbetween)

section

variable {v : Json.Number} (hv : v.IsValid)

include hv

theorem ofNumber_narrowed_of_fill (h : RoundsToFill v.value) : ofNumber v.narrowed = .fill := by
  rw [ofNumber, if_pos ((Json.Number.narrowed_beq_neg_one_iff hv).mpr h)]

theorem ofNumber_narrowed_of_points (h : RoundsToPoints v.value) :
    ofNumber v.narrowed = .points v.narrowed := by
  have hfill := not_roundsToFill_of_roundsToPoints h
  rw [ofNumber, if_neg (mt (Json.Number.narrowed_beq_neg_one_iff hv).mp hfill),
    if_pos ((Json.Number.nonneg_narrowed_iff hv).mpr h)]

theorem ofNumber_narrowed_of_auto (hfill : ¬RoundsToFill v.value)
    (hpoints : ¬RoundsToPoints v.value) : ofNumber v.narrowed = .auto := by
  rw [ofNumber, if_neg (mt (Json.Number.narrowed_beq_neg_one_iff hv).mp hfill),
    if_neg (mt (Json.Number.nonneg_narrowed_iff hv).mp hpoints)]

end

end Length

namespace Style

section

variable (config : Config) (parent : Direction) {d : Declarations} {axis : Axis} {v : Json.Number}
  (hv : v.IsValid) (h : d.get? axis.lengthKey = some (.number v))

include hv h

theorem length_resolve_eq_ofNumber :
    (resolve config parent d).length axis = .ofNumber v.narrowed := by
  rw [length_resolve, Length.ofDeclarations, Declarations.float?_of_get? hv h]

/-- A length that is a JSON number fills exactly if the number is rounded to -1, is in points
exactly if it is rounded to zero or a positive number, and is left open otherwise. -/
theorem length_resolve_number :
    let length := (resolve config parent d).length axis
    (length = .fill ↔ Length.RoundsToFill v.value) ∧
      (∀ p, length = .points p ↔ p = v.narrowed ∧ Length.RoundsToPoints v.value) ∧
      (length = .auto ↔ ¬Length.RoundsToFill v.value ∧ ¬Length.RoundsToPoints v.value) := by
  intro length
  have hlength : length = _ := length_resolve_eq_ofNumber config parent hv h
  rw [hlength]
  by_cases hfill : Length.RoundsToFill v.value
  · have hpoints : ¬Length.RoundsToPoints v.value := fun h =>
      Length.not_roundsToFill_of_roundsToPoints h hfill
    rw [Length.ofNumber_narrowed_of_fill hv hfill]
    simp [hfill, hpoints]
  by_cases hpoints : Length.RoundsToPoints v.value
  · rw [Length.ofNumber_narrowed_of_points hv hpoints]
    simp [hfill, hpoints, eq_comm]
  · rw [Length.ofNumber_narrowed_of_auto hv hfill hpoints]
    simp [hfill, hpoints]

end

/-- The number -1 itself fills. -/
theorem length_resolve_minus_one :
    let d : Declarations := ⟨[("width", .number (.negative (-1)))]⟩
    (Json.Number.negative (-1)).IsValid ∧
      d.get? Axis.horizontal.lengthKey = some (.number (.negative (-1))) ∧
      (resolve {} .column d).length .horizontal = .fill := by
  intro d
  have hv : (Json.Number.negative (-1)).IsValid := by decide
  have hwidth : d.get? Axis.horizontal.lengthKey = some (.number (.negative (-1))) := rfl
  have hvalue : (Json.Number.negative (-1)).value = -1 := by
    have hint : (-1 : Int64).toInt = -1 := rfl
    simp [Json.Number.value, hint]
  refine ⟨hv, hwidth, (length_resolve_number {} .column hv hwidth).1.mpr ?_⟩
  rw [hvalue, Length.RoundsToFill]
  norm_num

/-- The first number of 64 bits below -1 is not -1, but it fills. -/
theorem not_forall_length_resolve_number :
    ¬∀ (config : Config) (parent : Direction) (d : Declarations) (axis : Axis) (v : Json.Number),
      v.IsValid → d.get? axis.lengthKey = some (.number v) →
      let length := (resolve config parent d).length axis
      (length = .fill ↔ v.value = -1) ∧ ((∃ p, length = .points p) ↔ 0 ≤ v.value) ∧
        (length = .auto ↔ v.value < 0 ∧ v.value ≠ -1) := by
  intro h
  let d : Declarations := ⟨[("width", .number (.real (-1.0000000000000002)))]⟩
  have hv : (Json.Number.real (-1.0000000000000002)).IsValid := by decide +kernel
  have hwidth : d.get? Axis.horizontal.lengthKey =
    some (.number (.real (-1.0000000000000002))) := rfl
  have hparts : ContentCard.Number.Dyadic.ofFloat (-1.0000000000000002) =
    ⟨true, 2 ^ 52 + 1, -52⟩ := by decide +kernel
  have hvalue : (Json.Number.real (-1.0000000000000002)).value = -1 - 1 / 2 ^ 52 := by
    norm_num [Json.Number.value, ContentCard.Number.doubleValue, hparts,
      ContentCard.Number.Dyadic.value, ContentCard.Number.Dyadic.signed]
  have hfill : (resolve {} .column d).length .horizontal = .fill := by
    rw [length_resolve_eq_ofNumber {} .column hv hwidth]
    exact Length.ofNumber_narrowed_of_fill hv (by rw [hvalue, Length.RoundsToFill]; norm_num)
  have hexact := (h {} .column d .horizontal _ hv hwidth).1.mp hfill
  rw [hvalue] at hexact
  norm_num at hexact

end Style

end ContentCard
