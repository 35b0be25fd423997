import ContentCard.Layout.Overlay
import ContentCard.Proofs.Number.Thresholds
import Mathlib.Algebra.Order.Archimedean.Basic

/-!
# Sharing out room on top of each other

The room of a cell is given out in rounds, until the cell has come to its limit or no room is left.
Two rounds are enough or no number of rounds is (`Overlay.Frame.fill_eq_some_iff`): the first share
is the whole distance to the limit.  If rounding leaves it short, twice the share is too much; and
if it leads above the limit, it is refused in every round.
-/

namespace ContentCard

namespace Number

variable {x y b : Float32}

/-- A number and what is rounded to it have a power of two in common. -/
theorem IsRounding.exists_two_zpow {t : ℤ} {x z : ℚ} (h : IsRounding t x z) (hz : 0 < z) :
    ∃ p : ℤ, -149 ≤ p ∧ 2 ^ p ≤ z ∧ x < 2 ^ (p + 1) := by
  have hx : 0 < x := lt_trans (by positivity) (h.pos_iff.mp hz)
  obtain ⟨p, hlow, hhigh⟩ := exists_mem_Ico_zpow hx one_lt_two
  by_cases hp : -149 ≤ p
  · exact ⟨p, hp, h.two_zpow_le_of_le hp hlow, hhigh⟩
  -- the least positive number is large enough
  · obtain ⟨r, rfl⟩ := h.onGrid
    have hr : (1 : ℚ) ≤ r := by
      have hpos : (0 : ℚ) < r := pos_of_mul_pos_left hz (two_zpow_pos t).le
      exact_mod_cast hpos
    refine ⟨-149, le_rfl, ?_, hhigh.trans_le (two_zpow_le (by omega))⟩
    calc
      (2 : ℚ) ^ (-149 : ℤ) ≤ 2 ^ t := two_zpow_le h.least
      _ ≤ r * 2 ^ t := le_mul_of_one_le_left (two_zpow_pos t).le hr

theorem unpack_add_infinite (hx : x.isFinite) (hy : y.toModel.unpack = .infinity .positive) :
    (x + y).toModel.unpack = .infinity .positive := by
  change x.toModel.unpack.isFinite at hx
  have hsum : Float.Model.UnpackedFloat.add .binary32 x.toModel.unpack y.toModel.unpack =
      .infinity .positive := by
    rw [hy]
    generalize x.toModel.unpack = u at hx
    cases u with
    | notANumber | infinity => cases hx
    | zero | finite => rfl
  show (Float32.Model.pack (Float.Model.UnpackedFloat.add .binary32 x.toModel.unpack
    y.toModel.unpack)).unpack = _
  rw [hsum]
  rfl

/-- A sum that is larger is not rounded below. -/
theorem not_add_lt (hx : x.isFinite) (hy : y.isFinite) (hb : b.isFinite) (hnonneg : 0 ≤ value b)
    (hlt : value b < value x + value y) : ¬x + y < b := by
  obtain ⟨hsum, t, ht⟩ | hsum :=
    (Rounds.add hx hy).isRounding_or_infinite (hnonneg.trans hlt.le)
  · obtain ⟨g, hg⟩ := (isRounded_unpack hb).isRounding
    rw [lt_iff_value_lt hsum hb, not_lt]
    exact hg.le_of_lt ht hnonneg hlt
  · exact not_lt_of_le (le_of_infinite_positive hsum (isNaN_of_isFinite hb))

/-- From one number to another one, it is at most twice their difference. -/
theorem not_add_double_lt (hx : x.isFinite) (hb : b.isFinite) (hnonneg : 0 ≤ value b)
    (hsub : (b - x).isFinite) (hpos : 0 < b - x) : ¬x + (b - x + (b - x)) < b := by
  cases Rounds.sub hb hx with
  | above _ h => rw [eq_infinite_positive h] at hsub; cases hsub
  | below _ h => rw [eq_infinite_negative h] at hsub; cases hsub
  | finite _ t ht =>
    rw [lt_iff_value_lt rfl hsub, value_zero] at hpos
    -- twice the power of two below the rounded difference is above the exact one
    obtain ⟨p, hp, hlow, hhigh⟩ := ht.exists_two_zpow hpos
    obtain ⟨hdouble, g, hg⟩ | hdouble :=
      (Rounds.add hsub hsub).isRounding_or_infinite (add_pos hpos hpos).le
    · have htwice : (2 : ℚ) ^ (p + 1) ≤ value (b - x) + value (b - x) := by
        rw [zpow_add_one₀ two_ne_zero]
        linarith
      have := hg.two_zpow_le_of_le (by omega) htwice
      exact not_add_lt hx hdouble hb hnonneg (by linarith)
    · have hsum := unpack_add_infinite hx hdouble
      exact not_lt_of_le (le_of_infinite_positive hsum (isNaN_of_isFinite hb))

theorem isFinite_of_between (hxy : x < y) (hyb : y < b) : y.isFinite := by
  have hle := le_of_lt hxy
  have hge := le_of_lt hyb
  show y.toModel.unpack.isFinite
  cases hy : y.toModel.unpack with
  | zero | finite => rfl
  | notANumber =>
    have hnan := (isNaN_of_le hge).1
    change y.toModel.unpack.isNaN = false at hnan
    rw [hy] at hnan
    cases hnan
  | infinity s =>
    cases s with
    | positive => exact absurd hyb (not_lt_of_le (le_of_infinite_positive hy (isNaN_of_le hge).2))
    | negative => exact absurd hxy (not_lt_of_le (le_of_infinite_negative hy (isNaN_of_le hle).1))

theorem value_sub_self (hx : x.isFinite) : (x - x).isFinite ∧ value (x - x) = 0 := by
  have hsub := Rounds.sub hx hx
  rw [sub_self] at hsub
  obtain ⟨hfinite, t, ht⟩ := hsub.exists_isRounding (by norm_num)
  exact ⟨hfinite, by simpa using ht.eq_of_eq le_rfl (j := 0) (by simp)⟩

/-- A smaller term keeps a sum below a bound. -/
theorem add_lt_of_le {a : Float32} (hx : x.isFinite) (hnonneg : 0 ≤ value x) (ha : a.isFinite)
    (hpos : 0 ≤ value a) (hy : y.isFinite) (hle : value a ≤ value y) (hlt : x + y < b) :
    x + a < b := by
  have hsum : (x + y).isFinite := by
    obtain ⟨h, -⟩ | h :=
      (Rounds.add hx hy).isRounding_or_infinite (add_nonneg hnonneg (hpos.trans hle))
    · exact h
    · have hnan := (isNaN_of_le (le_of_lt hlt)).2
      exact absurd hlt (not_lt_of_le (le_of_infinite_positive h hnan))
  rw [add_comm] at hsum
  obtain ⟨hfinite, hvalue⟩ := add_le_add_right ha hpos hle hnonneg hsum
  have hsmaller := (le_iff_value_le hfinite hsum).mpr hvalue
  rw [add_comm a, add_comm y] at hsmaller
  by_contra hge
  have hge := le_of_not_lt (isNaN_of_le hsmaller).1 (isNaN_of_le (le_of_lt hlt)).2 hge
  exact not_lt_of_le hsmaller (lt_of_lt_of_le hlt hge)

end Number

namespace Layout.Overlay.Frame

open Number

variable {base limit room given : Float32}

/-! ## 2. Rounds -/

theorem fillWithin_of_over (h : ¬(remainder < room ∧ base + given < limit)) (n : ℕ) :
    fillWithin base limit n room given = some given := by
  cases n <;> rw [fillWithin, if_neg h]

theorem fillWithin_of_shared (h : remainder < room ∧ base + given < limit)
    (hstep : 0 < Number.min (limit - base) room ∧
      base + Number.min (limit - base) room ≤ limit + remainder) (n : ℕ) :
    fillWithin base limit (n + 1) room given =
      fillWithin base limit n (room - Number.min (limit - base) room)
        (given + Number.min (limit - base) room) := by
  rw [fillWithin, if_pos h]
  exact if_pos hstep

/-- A share that is refused once is refused for ever. -/
theorem fillWithin_of_refused (h : remainder < room ∧ base + given < limit)
    (hstep : ¬(0 < Number.min (limit - base) room ∧
      base + Number.min (limit - base) room ≤ limit + remainder)) (n : ℕ) :
    fillWithin base limit n room given = none := by
  induction n with
  | zero => rw [fillWithin, if_pos h]
  | succ n ih =>
    rw [fillWithin, if_pos h]
    exact (if_neg hstep).trans ih

theorem fillWithin_succ_of_eq_some {n : ℕ} {g : Float32}
    (h : fillWithin base limit n room given = some g) :
    fillWithin base limit (n + 1) room given = some g := by
  induction n generalizing room given with
  | zero =>
    by_cases hover : remainder < room ∧ base + given < limit
    · rw [fillWithin, if_pos hover] at h
      cases h
    · rwa [fillWithin_of_over hover] at h ⊢
  | succ n ih =>
    by_cases hover : remainder < room ∧ base + given < limit
    · by_cases hstep : 0 < Number.min (limit - base) room ∧
          base + Number.min (limit - base) room ≤ limit + remainder
      · rw [fillWithin_of_shared hover hstep] at h ⊢
        exact ih h
      · rw [fillWithin_of_refused hover hstep] at h
        cases h
    · rwa [fillWithin_of_over hover] at h ⊢

/-- A share is all of the room, of which nothing is left then, or the distance to the limit. -/
theorem min_room_cases {d : Float32} (hd : d.isFinite) (hroom : remainder < room) :
    Number.min d room = room ∧ ¬remainder < room - room ∧ room.isFinite ∧ room < d ∨
      Number.min d room = d := by
  rw [Number.min, isNaN_of_isFinite hd, if_neg Bool.false_ne_true]
  by_cases hlt : room < d
  · obtain ⟨hfinite, hzero⟩ := value_sub_self (isFinite_of_between hroom hlt)
    refine .inl ⟨if_pos hlt, ?_, isFinite_of_between hroom hlt, hlt⟩
    have hpos : 0 < value remainder := (lt_iff_value_lt rfl rfl).mp (by decide : 0 < remainder)
    rw [lt_iff_value_lt rfl hfinite, hzero]
    exact hpos.not_gt
  · exact .inr (if_neg hlt)

theorem le_add_remainder {x : Float32} (hx : x.isFinite) (hnonneg : 0 ≤ value x) :
    x ≤ x + remainder := by
  have hpos : 0 < value remainder := (lt_iff_value_lt rfl rfl).mp (by decide : 0 < remainder)
  obtain ⟨h, -⟩ | h :=
    (Rounds.add hx (y := remainder) rfl).isRounding_or_infinite (add_nonneg hnonneg hpos.le)
  · exact (le_iff_value_le hx h).mpr (le_add hnonneg hpos.le h)
  · exact le_of_infinite_positive h (isNaN_of_isFinite hx)

theorem zero_lt_of_remainder_lt (h : remainder < room) : 0 < room :=
  lt_of_lt_of_le (by decide : 0 < remainder) (le_of_lt h)

section

variable (hbase : base.isFinite) (hnonneg : 0 ≤ value base) (hlimit : limit.isFinite)

include hbase hnonneg hlimit

theorem isFinite_limit_sub (h : base + 0 < limit) : (limit - base).isFinite := by
  have hsub := Rounds.sub hlimit hbase
  have hlt : value base < value limit := by
    obtain ⟨hfinite, hvalue⟩ := add_of_value_eq_zero (x := 0) rfl rfl hbase
    rw [add_comm] at h
    rwa [lt_iff_value_lt hfinite hlimit, hvalue] at h
  obtain ⟨t, ht⟩ := (isRounded_unpack hlimit).isRounding
  have hlarge := (Rounds.finite hlimit t ht).isFinite_iff.mp hlimit
  rw [abs_of_pos (hnonneg.trans_lt hlt)] at hlarge
  rw [hsub.isFinite_iff, abs_of_pos (sub_pos.mpr hlt)]
  linarith

/-- If the first share is short of the limit, the second one is the last. -/
theorem fillWithin_second {d : Float32} (hd : limit - base = d) (hfinite : d.isFinite)
    (hpos : 0 < d) (n : ℕ) (room : Float32) :
    fillWithin base limit (n + 1) room d = fillWithin base limit 1 room d := by
  by_cases hover : remainder < room ∧ base + d < limit
  swap
  · rw [fillWithin_of_over hover, fillWithin_of_over hover]
  obtain ⟨hroom, hshort⟩ := hover
  have hlimit' : 0 ≤ value limit := by
    have hlow := (Rounds.sub hlimit hbase).pos_iff.mp (hd ▸ hpos)
    have : (0 : ℚ) < 1 / 2 ^ 150 := by norm_num
    linarith
  have hcases := min_room_cases hfinite hroom
  -- the first share was short of the limit, and this one is no larger, so it is not refused
  have hstep : 0 < Number.min (limit - base) room ∧
      base + Number.min (limit - base) room ≤ limit + remainder := by
    have hle := le_add_remainder hlimit hlimit'
    rw [hd]
    obtain ⟨hmin, -, hroom', hlt⟩ | hmin := hcases
    · rw [hmin]
      have hvalue := (lt_iff_value_lt hroom' hfinite).mp hlt
      have hroompos := zero_lt_of_remainder_lt hroom
      have hroomvalue := (lt_iff_value_lt rfl hroom').mp hroompos
      exact ⟨hroompos, le_trans (le_of_lt
        (add_lt_of_le hbase hnonneg hroom' hroomvalue.le hfinite hvalue.le hshort)) hle⟩
    · rw [hmin]
      exact ⟨hpos, le_trans (le_of_lt hshort) hle⟩
  -- no room is left, or the distance has been given out twice
  have hdone : ¬(remainder < room - Number.min (limit - base) room ∧
      base + (d + Number.min (limit - base) room) < limit) := by
    rw [hd]
    obtain ⟨hmin, hnone, -⟩ | hmin := hcases
    · rw [hmin]
      exact fun h => hnone h.1
    · rw [hmin]
      subst hd
      exact fun h => not_add_double_lt hbase hlimit hlimit' hfinite hpos h.2
  rw [fillWithin_of_shared ⟨hroom, hshort⟩ hstep, fillWithin_of_shared ⟨hroom, hshort⟩ hstep,
    fillWithin_of_over hdone, fillWithin_of_over hdone]

/-- Two rounds are enough, if any number is. -/
theorem fillWithin_add_two (n : ℕ) (room : Float32) :
    fillWithin base limit (n + 2) room 0 = fill base limit room := by
  rw [fill]
  by_cases hover : remainder < room ∧ base + 0 < limit
  swap
  · rw [fillWithin_of_over hover, fillWithin_of_over hover]
  by_cases hstep : 0 < Number.min (limit - base) room ∧
      base + Number.min (limit - base) room ≤ limit + remainder
  swap
  · rw [fillWithin_of_refused hover hstep, fillWithin_of_refused hover hstep]
  rw [fillWithin_of_shared hover hstep, fillWithin_of_shared hover hstep]
  have hfinite := isFinite_limit_sub hbase hnonneg hlimit hover.2
  obtain ⟨hmin, hnone, -⟩ | hmin := min_room_cases hfinite hover.1
  · have hdone : ¬(remainder < room - Number.min (limit - base) room ∧
        base + (0 + Number.min (limit - base) room) < limit) := by
      rw [hmin]
      exact fun h => hnone h.1
    rw [fillWithin_of_over hdone, fillWithin_of_over hdone]
  · have hpos := hstep.1
    rw [hmin] at hpos ⊢
    have hzero : 0 + (limit - base) = limit - base := by
      obtain ⟨hsum, hvalue⟩ := add_of_value_eq_zero (x := 0) rfl rfl hfinite
      have hpos := (lt_iff_value_lt rfl hfinite).mp hpos
      exact eq_of_value_eq hsum hfinite (by rw [hvalue]; exact hpos.ne') hvalue
    rw [hzero]
    exact fillWithin_second hbase hnonneg hlimit rfl hfinite hpos n _

/-- What is given out is what any number of rounds gives out that comes to an end. -/
theorem fill_eq_some_iff {g : Float32} :
    fill base limit room = some g ↔ ∃ n, fillWithin base limit n room 0 = some g := by
  refine ⟨fun h => ⟨2, h⟩, fun ⟨n, h⟩ => ?_⟩
  rw [← fillWithin_add_two hbase hnonneg hlimit n room]
  exact fillWithin_succ_of_eq_some (fillWithin_succ_of_eq_some h)

end

/-- The distance, added to 8.58, is rounded above 51.48. -/
example : fill 8.58 51.48 366 = none := by decide +kernel

end Layout.Overlay.Frame

end ContentCard
