import ContentCard.Font
import ContentCard.Proofs.Number.Integers
import ContentCard.Proofs.Text.Rewrap
import Mathlib.Algebra.Order.BigOperators.Group.List
import Mathlib.Data.Int.Log
import Mathlib.Data.List.Induction

/-!
# Text in its own width

The width of a text is rounded once, but the widths of its characters are rounded one by one and
then added up.  So a text need not fit its own width: an estimate is off by the roundings along the
line, and a font by the parts that bring each character to a whole pixel.
-/

namespace ContentCard

open Number (value)

/-! ## 1. One line -/

namespace Text

theorem fits_congr {f g : Char → Float32} {limit : Float32} {line : List Char}
    (h : ∀ c ∈ line, f c = g c) : Fits f limit line ↔ Fits g limit line := by
  rw [← wrapFrom_eq_singleton_iff, ← wrapFrom_eq_singleton_iff, wrapFrom_congr h]

theorem widthOf_const (advance : Float32) (line : List Char) :
    widthOf (fun _ => advance) line = lineWidth advance line.length := by
  induction line using List.reverseRecOn with
  | nil => rfl
  | append_singleton line c ih =>
    rw [widthOf_concat, ih, List.length_append]
    rfl

theorem fits_const_iff {advance limit : Float32} {line : List Char} :
    Fits (fun _ => advance) limit line ↔ ¬Breaks advance limit line.length := by
  constructor
  · rintro h ⟨k, hk, hone, hwide⟩
    have hlength : (line.take k).length = k := by rw [List.length_take, Nat.min_eq_left hk]
    refine h (line.take k) (List.take_prefix k line) (by omega) ?_
    rwa [widthOf_const, hlength]
  · intro h head hhead htwo hwide
    rw [widthOf_const] at hwide
    exact h ⟨head.length, hhead.length_le, htwo, hwide⟩

end Text

/-- A text without line feeds stays one line exactly if it fits. -/
theorem Measurer.wrap_eq_singleton_iff (m : Measurer) {text : String} (h : '\n' ∉ text.toList)
    (size : Float32) (weight : FontWeight) (limit : Float32) :
    m.wrap text size weight (some limit) = [text] ↔
      Text.Fits (m.advance size weight) limit text.toList := by
  have hinjective : Function.Injective (List.map String.toList) :=
    List.map_injective_iff.mpr fun _ _ => String.toList_injective
  rw [← hinjective.eq_iff, map_toList_wrap, Text.wrap, Text.paragraphs_eq_splitOn,
    List.splitOn_eq_singleton h, List.flatMap_singleton]
  exact Text.wrapFrom_eq_singleton_iff

/-! ## 2. Sums of one width -/

namespace Text

theorem value_tolerance : value tolerance = 10737418 * 2 ^ (-30 : ℤ) := rfl

theorem value_tolerance_bounds : 0 ≤ value tolerance ∧ value tolerance ≤ 1 / 2 := by
  rw [value_tolerance]
  norm_num

/-- Each character adds half of the last of 24 bits to the error at most. -/
theorem lineWidth_near {a : Float32} (ha : a.isFinite) (hnonneg : 0 ≤ value a) {p : ℤ}
    (hp : 0 ≤ p) (hp' : p ≤ 126) {n : ℕ} (hn : n * value a + n * 2 ^ (p - 25) < 2 ^ p) (k : ℕ)
    (hk : k < n) :
    (lineWidth a (k + 1)).isFinite ∧
      |value (lineWidth a (k + 1)) - (k + 1 : ℕ) * value a| ≤ k * 2 ^ (p - 25) := by
  have hstep := Number.two_zpow_pos (p - 25)
  -- no sum on the way reaches `2 ^ p`, so each character adds one rounding of at most half a step
  induction k with
  | zero =>
    have hone : (1 : ℚ) ≤ n := by exact_mod_cast hk
    have hlarge : |value a| < 2 ^ 127 := by
      rw [abs_of_nonneg hnonneg]
      have hle : value a ≤ n * value a := le_mul_of_one_le_left hnonneg hone
      have hpow : (2 : ℚ) ^ p ≤ 2 ^ (127 : ℤ) := Number.two_zpow_le (by omega)
      have hadd : 0 ≤ n * (2 : ℚ) ^ (p - 25) := mul_nonneg (by linarith) hstep.le
      have hlt : value a < 2 ^ (127 : ℤ) := by linarith
      exact_mod_cast hlt
    obtain ⟨hfinite, hvalue⟩ := Number.zero_add_exact ha hlarge
    refine ⟨hfinite, ?_⟩
    show |value (0 + a) - _| ≤ _
    rw [hvalue]
    simp
  | succ k ih =>
    obtain ⟨hfinite, hnear⟩ := ih (by omega)
    obtain ⟨hlow, hhigh⟩ := abs_le.mp hnear
    have hkn : ((k + 2 : ℕ) : ℚ) ≤ n := by exact_mod_cast hk
    have hsum : ((k + 2 : ℕ) : ℚ) * value a ≤ n * value a :=
      mul_le_mul_of_nonneg_right hkn hnonneg
    have herror : ((k + 2 : ℕ) : ℚ) * 2 ^ (p - 25) ≤ n * 2 ^ (p - 25) :=
      mul_le_mul_of_nonneg_right hkn hstep.le
    push_cast at hsum herror hlow hhigh ⊢
    have hk0 : (0 : ℚ) ≤ k := Nat.cast_nonneg k
    have hka : 0 ≤ k * value a := mul_nonneg hk0 hnonneg
    have hks : 0 ≤ (k : ℚ) * 2 ^ (p - 25) := mul_nonneg hk0 hstep.le
    have hbound : |value (lineWidth a (k + 1)) + value a| < 2 ^ p := by
      rw [abs_lt]
      constructor <;> linarith
    obtain ⟨hfinite', hnear'⟩ := (Number.Rounds.add hfinite ha).near (by omega) (by omega) hbound
    obtain ⟨hlow', hhigh'⟩ := abs_le.mp hnear'
    refine ⟨hfinite', ?_⟩
    show |value (lineWidth a (k + 1) + a) - _| ≤ _
    rw [abs_le]
    constructor <;> linarith

/-- Where the limit leaves room for these errors, no line breaks. -/
theorem not_breaks_of_near {a limit : Float32} (ha : a.isFinite) (hnonneg : 0 ≤ value a) {p : ℤ}
    (hp : 0 ≤ p) (hp' : p ≤ 126) {n : ℕ} (hn : n * value a + n * 2 ^ (p - 25) < 2 ^ p)
    (hlimit : (limit + tolerance).isFinite)
    (hroom : n * value a + (n - 1) * 2 ^ (p - 25) ≤ value (limit + tolerance)) :
    ¬Breaks a limit n := by
  rintro ⟨k, hkn, hk, hwide⟩
  obtain ⟨j, rfl⟩ : ∃ j, k = j + 1 := ⟨k - 1, by omega⟩
  obtain ⟨hfinite, hnear⟩ := lineWidth_near ha hnonneg hp hp' hn j hkn
  rw [Number.lt_iff_value_lt hlimit hfinite] at hwide
  have hcast : ((j + 1 : ℕ) : ℚ) ≤ n := by exact_mod_cast hkn
  have hwidths : ((j + 1 : ℕ) : ℚ) * value a ≤ n * value a :=
    mul_le_mul_of_nonneg_right hcast hnonneg
  have herrors : (j : ℚ) * 2 ^ (p - 25) ≤ (n - 1) * 2 ^ (p - 25) := by
    push_cast at hcast
    exact mul_le_mul_of_nonneg_right (by linarith) (Number.two_zpow_pos _).le
  have hhigh := (abs_le.mp hnear).2
  linarith

end Text

/-! ## 3. Estimates -/

/-- A power of two above a number, and not far from it. -/
theorem exists_two_zpow_gt {q : ℚ} (hq : 1 ≤ q) : ∃ p : ℤ, 0 ≤ p ∧ q < 2 ^ p ∧ 2 ^ p ≤ 2 * q := by
  have hle := Int.zpow_log_le_self (b := 2) (by decide) (by linarith : 0 < q)
  have hlt := Int.lt_zpow_succ_log_self (b := 2) (by decide) q
  push_cast at hle hlt
  refine ⟨Int.log 2 q + 1, ?_, hlt, ?_⟩
  · have hlog : (2 : ℚ) ^ (0 : ℤ) < 2 ^ (Int.log 2 q + 1) := by
      rw [zpow_zero]
      exact hq.trans_lt hlt
    exact (Number.lt_of_two_zpow_lt hlog).le
  · rw [zpow_add_one₀ two_ne_zero]
    linarith

/-- The errors along a short line, with two more for its width and the limit, stay below the
tolerance. -/
theorem exists_error_le {n : ℕ} (hn : 2 ≤ n) {w : ℚ} (hw : 0 ≤ w)
    (hshort : n * (w + 1) ≤ 100000) :
    ∃ p : ℤ, 0 ≤ p ∧ p ≤ 126 ∧ w + 1 < 2 ^ p ∧
      (n + 1) * 2 ^ (p - 25) ≤ value Text.tolerance := by
  have hn' : (2 : ℚ) ≤ n := by exact_mod_cast hn
  obtain ⟨p, hp, hlt, hle⟩ := exists_two_zpow_gt (le_add_of_nonneg_left hw)
  have hscaled : n * (2 : ℚ) ^ p ≤ 200000 := by
    have := mul_le_mul_of_nonneg_left hle (by linarith : (0 : ℚ) ≤ n)
    linarith
  have htwice : 2 * (2 : ℚ) ^ p ≤ n * 2 ^ p :=
    mul_le_mul_of_nonneg_right hn' (Number.two_zpow_pos p).le
  have hpow : (2 : ℚ) ^ p < 2 ^ (126 : ℤ) := by
    have : (2 : ℚ) ^ p ≤ 100000 := by linarith
    exact this.trans_lt (by norm_num)
  refine ⟨p, hp, (Number.lt_of_two_zpow_lt hpow).le, hlt, ?_⟩
  have hstep : (2 : ℚ) ^ (p - 25) = 2 ^ p / 2 ^ 25 := zpow_sub₀ two_ne_zero p 25
  rw [hstep, Text.value_tolerance]
  norm_num
  linarith

namespace Estimate

variable (e : Estimate) (size : Float32) (weight : FontWeight)

theorem measure_width {text : String} (h : '\n' ∉ text.toList) :
    (e.measure text size weight).width =
      Number.max 0 (Float32.ofNat text.length * e.advance size weight) := by
  rw [measure, Text.paragraphs_eq_splitOn, List.splitOn_eq_singleton h]
  rfl

variable {e size weight}

theorem value_charWidth (ha : (e.advance size weight).isFinite)
    (hnonneg : 0 ≤ value (e.advance size weight))
    (hlarge : value (e.advance size weight) < 2 ^ 127) :
    (e.charWidth size weight).isFinite ∧
      value (e.charWidth size weight) = value (e.advance size weight) := by
  rw [← abs_of_nonneg hnonneg] at hlarge
  obtain ⟨hfinite, hvalue⟩ := Number.one_mul_exact ha hlarge
  obtain ⟨hfinite', hvalue'⟩ := Number.zero_max_value hfinite
  exact ⟨hfinite', by rw [charWidth, hvalue', hvalue, max_eq_right hnonneg]⟩

/-- The width of `n` characters and the tolerance, both rounded. -/
theorem limit_near {a : Float32} (ha : a.isFinite) (hnonneg : 0 ≤ value a) {n : ℕ}
    (hn : n < 2 ^ 23) {p : ℤ} (hp : 0 ≤ p) (hp' : p ≤ 126) (hlt : n * value a + 1 < 2 ^ p)
    (herror : 2 * (2 : ℚ) ^ (p - 25) ≤ value Text.tolerance) :
    let limit := Number.max 0 (Float32.ofNat n * a) + Text.tolerance
    limit.isFinite ∧ n * value a + value Text.tolerance - 2 * 2 ^ (p - 25) ≤ value limit := by
  have htolerance := Text.value_tolerance_bounds.2
  have hstep := Number.two_zpow_pos (p - 25)
  have hwidth : 0 ≤ n * value a := mul_nonneg (Nat.cast_nonneg n) hnonneg
  have hproduct : |value (Float32.ofNat n) * value a| < 2 ^ p := by
    rw [Number.value_ofNat hn, abs_of_nonneg hwidth]
    linarith
  obtain ⟨hfinite, hnear⟩ :=
    (Number.Rounds.mul (Number.isFinite_ofNat hn) ha).near (by omega) (by omega) hproduct
  rw [Number.value_ofNat hn, abs_le] at hnear
  obtain ⟨hfinite', hvalue⟩ := Number.zero_max_value hfinite
  have hlow : n * value a - 2 ^ (p - 25) ≤ value (Number.max 0 (Float32.ofNat n * a)) := by
    rw [hvalue]
    exact le_max_of_le_right (by linarith)
  have hhigh : value (Number.max 0 (Float32.ofNat n * a)) ≤ n * value a + 2 ^ (p - 25) := by
    rw [hvalue]
    exact max_le (by linarith) (by linarith)
  have hsum : |value (Number.max 0 (Float32.ofNat n * a)) + value Text.tolerance| < 2 ^ p := by
    rw [abs_lt]
    constructor <;> linarith
  -- one rounding was that of the product, and one is that of the sum
  obtain ⟨hlimit, hlimitNear⟩ := (Number.Rounds.add hfinite' rfl).near (by omega) (by omega) hsum
  rw [abs_le] at hlimitNear
  exact ⟨hlimit, by linarith⟩

/-- A short text, by its number of characters and its exact width, fits its width. -/
theorem not_breaks_of_short {n : ℕ} (ha : (e.advance size weight).isFinite)
    (hnonneg : 0 ≤ value (e.advance size weight))
    (hshort : n * (n * value (e.advance size weight) + 1) ≤ 100000) :
    ¬Text.Breaks (e.charWidth size weight)
      (Number.max 0 (Float32.ofNat n * e.advance size weight)) n := by
  obtain hone | hn := Nat.lt_or_ge 1 n |>.symm
  · exact Text.not_breaks_of_le_one hone
  have hn' : (2 : ℚ) ≤ n := by exact_mod_cast hn
  have hwidth : 0 ≤ n * value (e.advance size weight) := mul_nonneg (by linarith) hnonneg
  obtain ⟨p, hp, hp', hlt, herror⟩ := exists_error_le hn hwidth hshort
  have hstep := Number.two_zpow_pos (p - 25)
  have hcount : n < 2 ^ 23 := by
    have : (n : ℚ) * 1 ≤ n * (n * value (e.advance size weight) + 1) :=
      mul_le_mul_of_nonneg_left (by linarith) (by linarith)
    have : (n : ℚ) < 2 ^ 23 := by linarith
    exact_mod_cast this
  have hlarge : value (e.advance size weight) < 2 ^ 127 := by
    have : value (e.advance size weight) ≤ n * value (e.advance size weight) :=
      le_mul_of_one_le_left hnonneg (by linarith)
    have : (2 : ℚ) ^ p ≤ 2 ^ (127 : ℤ) := Number.two_zpow_le (by omega)
    have : value (e.advance size weight) < 2 ^ (127 : ℤ) := by linarith
    exact_mod_cast this
  have htolerance := Text.value_tolerance_bounds.2
  have htwice : 2 * (2 : ℚ) ^ (p - 25) ≤ (n + 1) * 2 ^ (p - 25) :=
    mul_le_mul_of_nonneg_right (by linarith) hstep.le
  -- the tolerance makes up for `n - 1` roundings along the line and two in the limit
  obtain ⟨hfinite, hvalue⟩ := value_charWidth ha hnonneg hlarge
  obtain ⟨hlimit, hlow⟩ := limit_near ha hnonneg hcount hp hp' hlt (htwice.trans herror)
  refine Text.not_breaks_of_near hfinite (hvalue ▸ hnonneg) hp hp' ?_ hlimit ?_
  · rw [hvalue]
    linarith
  · rw [hvalue]
    linarith

variable (e size weight) in
theorem wrap_own_width_iff {text : String} (h : '\n' ∉ text.toList) :
    e.measure.wrap text size weight (some (e.measure text size weight).width) = [text] ↔
      ¬Text.Breaks (e.charWidth size weight) (e.measure text size weight).width text.length := by
  rw [Measurer.wrap_eq_singleton_iff _ h, Text.fits_congr fun c hc =>
    e.advance_measure size weight fun hfeed => h (hfeed ▸ hc), Text.fits_const_iff]
  rfl

end Estimate

/-! ## 4. Fonts -/

namespace Text

/-- A line is as wide as whole numbers around its widths allow. -/
theorem widthOf_between {advance : Char → Float32} (least most : Char → ℕ) {line : List Char}
    (hfinite : ∀ c ∈ line, (advance c).isFinite)
    (hleast : ∀ c ∈ line, least c ≤ value (advance c))
    (hmost : ∀ c ∈ line, value (advance c) ≤ most c) (hlt : (line.map most).sum < 2 ^ 24) :
    (widthOf advance line).isFinite ∧ (line.map least).sum ≤ value (widthOf advance line) ∧
      value (widthOf advance line) ≤ (line.map most).sum := by
  induction line using List.reverseRecOn with
  | nil =>
    rw [widthOf, List.foldl_nil, Number.value_zero]
    exact ⟨rfl, le_rfl, le_rfl⟩
  | append_singleton line c ih =>
    simp only [List.mem_append, List.mem_singleton, or_imp, forall_and, forall_eq]
      at hfinite hleast hmost
    simp only [List.map_append, List.map_singleton, List.sum_append, List.sum_singleton] at hlt ⊢
    obtain ⟨hline, hlow, hhigh⟩ := ih hfinite.1 hleast.1 hmost.1 (by omega)
    generalize (line.map least).sum = low at *
    generalize (line.map most).sum = high at *
    have hsum := (Number.Rounds.add hline hfinite.2).between (i := low + least c)
      (j := high + most c) (by omega) (by omega) (by push_cast; exact add_le_add hlow hleast.2)
      (by push_cast; exact add_le_add hhigh hmost.2)
    rw [widthOf_concat]
    exact_mod_cast hsum

/-- Among whole numbers the tolerance does not count. -/
theorem tolerance_lt_iff {limit width : Float32} (hlimit : limit.isFinite) (hwidth : width.isFinite)
    {n k : ℕ} (hn : value limit = n) (hk : value width = k) (hlt : n < 2 ^ 22) :
    limit + tolerance < width ↔ n < k := by
  have hn0 : (0 : ℚ) ≤ n := Nat.cast_nonneg n
  have hlt' : (n : ℚ) < 2 ^ 22 := by exact_mod_cast hlt
  have htolerance := value_tolerance_bounds
  have hsum : |value limit + value tolerance| < 2 ^ (23 : ℤ) := by
    rw [hn, abs_of_nonneg (by linarith), zpow_ofNat]
    linarith
  -- with the tolerance the limit is not below `n`, and stays below `n + 1`
  have hrounds := Number.Rounds.add hlimit (y := tolerance) rfl
  obtain ⟨hfinite, hnear⟩ := hrounds.near (by decide) (by decide) hsum
  obtain ⟨-, hlow, -⟩ := hrounds.between (i := n) (j := n + 1)
    (by omega) (by omega) (by rw [hn]; push_cast; linarith) (by rw [hn]; push_cast; linarith)
  have hhigh := (abs_le.mp hnear).2
  rw [Number.lt_iff_value_lt hfinite hwidth, hk]
  norm_num at hhigh
  constructor
  · intro h
    have : (n : ℚ) < k := hlow.trans_lt h
    exact_mod_cast this
  · intro h
    have : ((n : ℚ) + 1) ≤ k := by exact_mod_cast h
    linarith

theorem fits_whole_iff {advance : Char → Float32} {limit : Float32} {width : Char → ℕ} {n : ℕ}
    {line : List Char} (hfinite : ∀ c ∈ line, (advance c).isFinite)
    (hwidth : ∀ c ∈ line, value (advance c) = width c) (hsum : (line.map width).sum < 2 ^ 24)
    (hlimit : limit.isFinite) (hn : value limit = n) (hlt : n < 2 ^ 22) :
    Fits advance limit line ↔ line.length ≤ 1 ∨ (line.map width).sum ≤ n := by
  have hhead {head : List Char} (h : head <+: line) :
      limit + tolerance < widthOf advance head ↔ n < (head.map width).sum := by
    have hle : (head.map width).sum ≤ (line.map width).sum :=
      (h.map width).sublist.sum_le_sum fun _ _ => Nat.zero_le _
    obtain ⟨hfinite, hlow, hhigh⟩ := widthOf_between width width
      (fun c hc => hfinite c (h.subset hc)) (fun c hc => (hwidth c (h.subset hc)).ge)
      (fun c hc => (hwidth c (h.subset hc)).le) (hle.trans_lt hsum)
    exact tolerance_lt_iff hlimit hfinite hn (le_antisymm hhigh hlow) hlt
  constructor
  · intro h
    by_cases hone : line.length ≤ 1
    · exact .inl hone
    · have := h line (List.prefix_refl line) (by omega)
      rw [hhead (List.prefix_refl line)] at this
      exact .inr (not_lt.mp this)
  · rintro (hone | hle) head h htwo
    · have := h.length_le
      omega
    · rw [hhead h, not_lt]
      exact ((h.map width).sublist.sum_le_sum fun _ _ => Nat.zero_le _).trans hle

end Text

namespace Font

variable (f : Font) (size : Float32) (weight : FontWeight)

/-- The pixels that a character takes on its own. -/
def pixels (c : Char) : ℕ := ⌈value (f.advance size c)⌉₊

theorem measure_width {text : String} (h : '\n' ∉ text.toList) :
    (f.measure text size weight).width =
      Number.ceil (Number.max 0 (Text.widthOf (f.advance size) text.toList)) := by
  have hsum : Number.sum (text.toList.map (f.advance size)) =
      Text.widthOf (f.advance size) text.toList := List.foldl_map
  rw [measure, Text.paragraphs_eq_splitOn, List.splitOn_eq_singleton h, ← hsum]
  rfl

section

variable {f size} {text : String} (h : '\n' ∉ text.toList)
  (hfinite : ∀ c ∈ text.toList, (f.advance size c).isFinite)
  (hnonneg : ∀ c ∈ text.toList, 0 ≤ value (f.advance size c))
  (hlt : (text.toList.map (f.pixels size)).sum < 2 ^ 22)

include h hfinite hnonneg hlt

/-- A text takes whole pixels, and not more than its characters on their own. -/
theorem value_measure_width : (f.measure text size weight).width.isFinite ∧
    value (f.measure text size weight).width =
      ⌈value (Text.widthOf (f.advance size) text.toList)⌉₊ ∧
    ⌈value (Text.widthOf (f.advance size) text.toList)⌉₊ ≤
      (text.toList.map (f.pixels size)).sum := by
  obtain ⟨hsum, hlow, hhigh⟩ := Text.widthOf_between (fun _ => 0) (f.pixels size) hfinite
    (fun c hc => by rw [Nat.cast_zero]; exact hnonneg c hc) (fun c hc => Nat.le_ceil _)
    (hlt.trans (by decide))
  have hpos : 0 ≤ value (Text.widthOf (f.advance size) text.toList) :=
    (Nat.cast_nonneg _).trans hlow
  obtain ⟨hmax, hvalue⟩ := Number.zero_max_value hsum
  rw [max_eq_right hpos] at hvalue
  obtain ⟨hceil, hvalue'⟩ := Number.value_ceil hmax
  rw [measure_width _ _ _ h]
  refine ⟨hceil, ?_, Nat.ceil_le.mpr hhigh⟩
  rw [hvalue', hvalue, natCast_ceil_eq_intCast_ceil hpos]

/-- One character takes its pixels. -/
theorem value_measure_width_of_length_le (hone : text.toList.length ≤ 1) :
    value (f.measure text size weight).width = (text.toList.map (f.pixels size)).sum := by
  rw [(value_measure_width weight h hfinite hnonneg hlt).2.1]
  congr 1
  -- a sum of one number is not rounded
  generalize text.toList = line at *
  match line with
  | [] => rw [Text.widthOf, List.foldl_nil, Number.value_zero, Nat.ceil_zero, List.map_nil,
      List.sum_nil]
  | [c] =>
    simp only [List.mem_singleton, forall_eq, List.map_singleton, List.sum_singleton] at *
    have hlarge : |value (f.advance size c)| < 2 ^ 127 := by
      have hle : value (f.advance size c) ≤ f.pixels size c := Nat.le_ceil _
      have hlt' : (f.pixels size c : ℚ) < 2 ^ 22 := by exact_mod_cast hlt
      rw [abs_of_nonneg hnonneg]
      exact (hle.trans_lt hlt').trans (by norm_num)
    exact congrArg _ (Number.zero_add_exact hfinite hlarge).2
  | _ :: _ :: _ => simp at hone

theorem value_measure_advance {c : Char} (hc : c ∈ text.toList) :
    (f.measure.advance size weight c).isFinite ∧
      value (f.measure.advance size weight c) = f.pixels size c := by
  have hlist : (String.singleton c).toList = [c] := String.toList_singleton c
  have hfeed : '\n' ∉ (String.singleton c).toList := by
    rw [hlist, List.mem_singleton]
    exact fun hfeed => h (hfeed ▸ hc)
  have hfinite' : ∀ x ∈ (String.singleton c).toList, (f.advance size x).isFinite := by
    rw [hlist]
    simpa using hfinite c hc
  have hnonneg' : ∀ x ∈ (String.singleton c).toList, 0 ≤ value (f.advance size x) := by
    rw [hlist]
    simpa using hnonneg c hc
  have hlt' : ((String.singleton c).toList.map (f.pixels size)).sum < 2 ^ 22 := by
    rw [hlist]
    simpa using (List.single_le_sum (by simp) _ (List.mem_map_of_mem hc)).trans_lt hlt
  have hvalue := value_measure_width_of_length_le weight hfeed hfinite' hnonneg' hlt'
    (by rw [hlist]; rfl)
  rw [hlist, List.map_singleton, List.sum_singleton] at hvalue
  exact ⟨(value_measure_width weight hfeed hfinite' hnonneg' hlt').1, hvalue⟩

theorem wrap_own_width_iff :
    f.measure.wrap text size weight (some (f.measure text size weight).width) = [text] ↔
      value (f.measure text size weight).width = (text.toList.map (f.pixels size)).sum := by
  obtain ⟨hwidth, hvalue, hle⟩ := value_measure_width weight h hfinite hnonneg hlt
  have hadvance {c : Char} (hc : c ∈ text.toList) :=
    value_measure_advance weight h hfinite hnonneg hlt hc
  rw [Measurer.wrap_eq_singleton_iff _ h, Text.fits_whole_iff (fun c hc => (hadvance hc).1)
    (fun c hc => (hadvance hc).2) (hlt.trans (by decide)) hwidth hvalue (hle.trans_lt hlt)]
  constructor
  · rintro (hone | hfits)
    · exact value_measure_width_of_length_le weight h hfinite hnonneg hlt hone
    · rw [hvalue, le_antisymm hle hfits]
  · intro hsame
    rw [hvalue] at hsame
    exact .inr (Nat.cast_injective hsame).ge

end

/-- A file of a font with one glyph, 9 of 16 units wide. -/
def oneGlyph : List UInt8 :=
  let record (name : String) (start length : UInt8) : List UInt8 :=
    name.toList.map (fun c => UInt8.ofNat c.toNat) ++ [0, 0, 0, 0, 0, 0, 0, start, 0, 0, 0, length]
  let head := List.replicate 18 0 ++ [0, 16] ++ List.replicate 34 0
  let hhea := List.replicate 34 0 ++ [0, 1]
  let maxp := [0, 0, 80, 0, 0, 1]
  let hmtx := [0, 9, 0, 0]
  [0, 1, 0, 0, 0, 4, 0, 0, 0, 0, 0, 0] ++ record "head" 76 54 ++ record "hhea" 130 36 ++
    record "maxp" 166 6 ++ record "hmtx" 172 4 ++ head ++ hhea ++ maxp ++ hmtx

end Font

/-! ## 5. Either measure -/

/-- By an estimate a text stays one line in its own width exactly if the widths of its characters,
as they add up, never pass that width by more than the tolerance; those of a short text do not.  By
a font it does exactly if its characters, rounded up one by one, are as wide as the whole. -/
theorem Measurer.wrap_own_width {text : String} (h : '\n' ∉ text.toList) (size : Float32)
    (weight : FontWeight) :
    (∀ e : Estimate,
      (e.measure.wrap text size weight (some (e.measure text size weight).width) = [text] ↔
        ¬Text.Breaks (e.charWidth size weight) (e.measure text size weight).width text.length) ∧
      ((e.advance size weight).isFinite → 0 ≤ value (e.advance size weight) →
        text.length * (text.length * value (e.advance size weight) + 1) ≤ 100000 →
        e.measure.wrap text size weight (some (e.measure text size weight).width) = [text])) ∧
    ∀ f : Font, (∀ c ∈ text.toList, (f.advance size c).isFinite) →
      (∀ c ∈ text.toList, 0 ≤ value (f.advance size c)) →
      (text.toList.map (f.pixels size)).sum < 2 ^ 22 →
      (f.measure.wrap text size weight (some (f.measure text size weight).width) = [text] ↔
        value (f.measure text size weight).width = (text.toList.map (f.pixels size)).sum) := by
  refine ⟨fun e => ⟨e.wrap_own_width_iff size weight h, fun hfinite hnonneg hshort => ?_⟩,
    fun f => Font.wrap_own_width_iff weight h⟩
  rw [e.wrap_own_width_iff size weight h, e.measure_width size weight h]
  exact Estimate.not_breaks_of_short hfinite hnonneg hshort

/-- With characters of 8.4 pixels by an estimate, and of 9 by a font. -/
theorem wrap_own_width_hello :
    '\n' ∉ "hello".toList ∧
      (Estimate.measure {}).wrap "hello" 14 .regular
        (some (Estimate.measure {} "hello" 14 .regular).width) = ["hello"] ∧
      ((Font.read Font.oneGlyph).toOption.map fun f =>
        f.measure.wrap "hello" 16 .regular (some (f.measure "hello" 16 .regular).width)) =
          some ["hello"] := by
  have hfeed : '\n' ∉ "hello".toList := by decide
  have hadvance : value (Estimate.advance {} 14 .regular) = 8808039 * 2 ^ (-20 : ℤ) := by rfl
  have hfont : ((Font.read Font.oneGlyph).toOption.map fun f =>
      ("hello".toList.map (f.advance 16), (f.measure "hello" 16 .regular).width)) =
        some ([9, 9, 9, 9, 9], 45) := by
    decide +kernel
  refine ⟨hfeed, ?_, ?_⟩
  · refine ((Measurer.wrap_own_width hfeed 14 .regular).1 {}).2 (by decide) ?_ ?_
    · rw [hadvance]
      norm_num
    · rw [hadvance, show "hello".length = 5 from rfl]
      norm_num
  · cases hread : (Font.read Font.oneGlyph).toOption with
    | none =>
      rw [hread] at hfont
      cases hfont
    | some f =>
      rw [hread, Option.map_some, Option.some.injEq, Prod.mk.injEq] at hfont
      obtain ⟨hadvances, hwidth⟩ := hfont
      have hnine : ∀ c ∈ "hello".toList, f.advance 16 c = 9 := by
        intro c hc
        have hmem := List.mem_map_of_mem (f := f.advance 16) hc
        rw [hadvances] at hmem
        simpa using hmem
      have hvalue : value 9 = (9 : ℕ) := Number.value_ofNat (by decide)
      have hpixels : "hello".toList.map (f.pixels 16) = [9, 9, 9, 9, 9] := by
        rw [show f.pixels 16 = (fun x => ⌈value x⌉₊) ∘ f.advance 16 from rfl, ← List.map_map,
          hadvances]
        simp only [List.map_cons, List.map_nil, hvalue, Nat.ceil_natCast]
      rw [Option.map_some, Option.some.injEq]
      refine ((Measurer.wrap_own_width hfeed 16 .regular).2 f ?_ ?_ ?_).mpr ?_
      · intro c hc
        rw [hnine c hc]
        decide
      · intro c hc
        rw [hnine c hc, hvalue]
        exact Nat.cast_nonneg 9
      · rw [hpixels]
        decide
      · rw [hpixels, hwidth]
        exact Number.value_ofNat (n := 45) (by decide)

set_option maxRecDepth 10000 in
/-- Neither measure keeps every text in one line. -/
theorem not_forall_wrap_own_width :
    (¬∀ (e : Estimate) (text : String) (size : Float32) (weight : FontWeight),
      e.charWidthFactor.isFinite → 0 ≤ e.charWidthFactor → e.lineHeightExtra.isFinite →
      0 ≤ e.lineHeightExtra → '\n' ∉ text.toList → 0 < size →
      e.measure.wrap text size weight (some (e.measure text size weight).width) = [text]) ∧
    ¬∀ (bytes : List UInt8) (f : Font) (text : String) (size : Float32) (weight : FontWeight),
      Font.read bytes = .ok f → '\n' ∉ text.toList → 0 < size →
      f.measure.wrap text size weight (some (f.measure text size weight).width) = [text] := by
  constructor
  · intro h
    have htext : '\n' ∉ (String.ofList (List.replicate 356 'a')).toList := by
      rw [String.toList_ofList, List.mem_replicate]
      decide
    have hline := h {} (String.ofList (List.replicate 356 'a')) 16 .regular (by decide) (by decide)
      (by decide) (by decide) htext (by decide)
    rw [Estimate.wrap_own_width_iff _ _ _ htext] at hline
    rw [Estimate.measure_width _ _ _ htext, String.length_ofList, List.length_replicate] at hline
    exact hline ⟨356, le_rfl, by decide, by decide +kernel⟩
  · intro h
    have hwrap : ((Font.read Font.oneGlyph).toOption.map fun f =>
        f.measure.wrap "AA" 8 .regular (some (f.measure "AA" 8 .regular).width)) =
          some ["A", "A"] := by
      decide +kernel
    cases hread : Font.read Font.oneGlyph with
    | error fault =>
      rw [hread] at hwrap
      cases hwrap
    | ok f =>
      rw [hread] at hwrap
      have hline := h Font.oneGlyph f "AA" 8 .regular hread (by decide) (by decide)
      simp [Except.toOption, hline] at hwrap

end ContentCard
