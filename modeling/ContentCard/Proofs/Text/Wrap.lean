import ContentCard.Visual
import Mathlib.Data.List.Basic

/-!
# Lines of characters of one width

Where every character has the same width, a limit matters only by how many characters a line holds.
Two limits, each with its own width of a character, give a text the same lines exactly when they
break the same numbers of characters, up to the longest paragraph.
-/

namespace ContentCard

namespace Text

/-! ## 1. What a line holds -/

/-- The width of `n` characters, as it is summed along a line. -/
def lineWidth (advance : Float32) : Nat → Float32
  | 0 => 0
  | n + 1 => lineWidth advance n + advance

/-- A line breaks before it holds `n` characters; the first character never breaks it. -/
def Breaks (advance limit : Float32) (n : Nat) : Prop :=
  ∃ k, k ≤ n ∧ 1 < k ∧ limit + tolerance < lineWidth advance k

instance (advance limit : Float32) (n : Nat) : Decidable (Breaks advance limit n) :=
  inferInstanceAs (Decidable (∃ k, k ≤ n ∧ 1 < k ∧ limit + tolerance < lineWidth advance k))

section

variable {advance limit : Float32} {m n : Nat}

theorem Breaks.mono (h : Breaks advance limit m) (hmn : m ≤ n) : Breaks advance limit n := by
  obtain ⟨k, hk, hwide⟩ := h
  exact ⟨k, by omega, hwide⟩

theorem not_breaks_of_le_one (h : n ≤ 1) : ¬Breaks advance limit n := by
  rintro ⟨k, hk, hone, -⟩
  omega

theorem breaks_succ_iff (h : ¬Breaks advance limit n) :
    Breaks advance limit (n + 1) ↔ 0 < n ∧ limit + tolerance < lineWidth advance (n + 1) := by
  constructor
  · rintro ⟨k, hk, hone, hwide⟩
    -- the line held everything shorter
    have hlast : k = n + 1 := by
      by_contra hne
      exact h ⟨k, by omega, hone, hwide⟩
    subst hlast
    exact ⟨by omega, hwide⟩
  · rintro ⟨hn, hwide⟩
    exact ⟨n + 1, by omega, by omega, hwide⟩

end

/-! ## 2. Filling lines -/

theorem wrapFrom_congr {f g : Char → Float32} {limit width : Float32} {line rest : List Char}
    (h : ∀ c ∈ rest, f c = g c) :
    wrapFrom f limit line width rest = wrapFrom g limit line width rest := by
  induction rest generalizing line width with
  | nil => rfl
  | cons c rest ih =>
    obtain ⟨hc, hrest⟩ := List.forall_mem_cons.mp h
    simp only [wrapFrom, hc, ih hrest]

/-- The lines of a paragraph from inside a line, with characters of one width. -/
def wrapEven (advance limit : Float32) (line : List Char) (rest : List Char) : List (List Char) :=
  wrapFrom (fun _ => advance) limit line (lineWidth advance line.length) rest

section

variable {advance limit : Float32} {line : List Char}

theorem wrapEven_cons (h : ¬Breaks advance limit line.length) (c : Char) (rest : List Char) :
    wrapEven advance limit line (c :: rest) =
      if Breaks advance limit (line.length + 1) then
        line.reverse :: wrapEven advance limit (if isBlank c then [] else [c]) rest
      else wrapEven advance limit (c :: line) rest := by
  have hbreak : (limit + tolerance < lineWidth advance line.length + advance ∧ line ≠ []) ↔
      Breaks advance limit (line.length + 1) := by
    rw [breaks_succ_iff h, List.length_pos_iff, and_comm]
    rfl
  rw [wrapEven, wrapFrom, if_congr hbreak rfl rfl]
  congr 1
  split <;> rfl

theorem wrapEven_ne_nil (line rest : List Char) : wrapEven advance limit line rest ≠ [] := by
  rw [wrapEven]
  generalize lineWidth advance line.length = width
  induction rest generalizing line width with
  | nil => simp [wrapFrom]
  | cons c rest ih =>
    rw [wrapFrom]
    split
    · split <;> simp
    · exact ih _ _

/-- A number of characters breaks a line if it is more than the first line holds. -/
theorem breaks_iff_head_lt {rest : List Char} (h : ¬Breaks advance limit line.length) {n : Nat}
    (hn : n ≤ line.length + rest.length) :
    Breaks advance limit n ↔ ((wrapEven advance limit line rest).headD []).length < n := by
  -- the line so far has not broken, and grows until it does
  induction rest generalizing line with
  | nil =>
    have hn : n ≤ line.length := hn
    have hlen : ((wrapEven advance limit line []).headD []).length = line.length :=
      List.length_reverse
    rw [hlen]
    exact ⟨fun hb => absurd (hb.mono hn) h, fun hlt => by omega⟩
  | cons c rest ih =>
    rw [wrapEven_cons h]
    by_cases hb : Breaks advance limit (line.length + 1)
    · rw [if_pos hb, List.headD_cons, List.length_reverse]
      refine ⟨fun hbn => ?_, fun hlt => hb.mono hlt⟩
      by_contra hle
      exact h (hbn.mono (by omega))
    · rw [if_neg hb]
      have hn : n ≤ (c :: line).length + rest.length := by
        simp only [List.length_cons] at hn ⊢
        omega
      exact ih hb hn

end

/-! ## 3. Two ways to wrap -/

section

variable {advance limit advance' limit' : Float32}

theorem wrapEven_congr {line rest : List Char}
    (h : ∀ n ≤ line.length + rest.length, Breaks advance limit n ↔ Breaks advance' limit' n)
    (hline : ¬Breaks advance limit line.length) :
    wrapEven advance limit line rest = wrapEven advance' limit' line rest := by
  induction rest generalizing line with
  | nil => rfl
  | cons c rest ih =>
    rw [List.length_cons] at h
    have hline' : ¬Breaks advance' limit' line.length := mt (h _ (by omega)).mpr hline
    have hnext := h (line.length + 1) (by omega)
    rw [wrapEven_cons hline, wrapEven_cons hline']
    by_cases hb : Breaks advance limit (line.length + 1)
    · rw [if_pos hb, if_pos (hnext.mp hb)]
      -- the next line starts with one character or, after a blank, with none
      have hstart : (if isBlank c then [] else [c] : List Char).length ≤ 1 := by
        split <;> simp
      rw [ih (fun n hn => h n (by omega)) (not_breaks_of_le_one hstart)]
    · rw [if_neg hb, if_neg (mt hnext.mpr hb)]
      exact ih (fun n hn => h n (by rw [List.length_cons] at hn; omega)) hb

theorem flatMap_wrapEven_eq_iff (paragraphs : List (List Char)) :
    paragraphs.flatMap (wrapEven advance limit []) =
        paragraphs.flatMap (wrapEven advance' limit' []) ↔
      ∀ p ∈ paragraphs, ∀ n ≤ p.length,
        Breaks advance limit n ↔ Breaks advance' limit' n := by
  have hempty (a l : Float32) : ¬Breaks a l ([] : List Char).length :=
    not_breaks_of_le_one (Nat.zero_le 1)
  constructor
  · intro h
    induction paragraphs with
    | nil => simp
    | cons p rest ih =>
      rw [List.flatMap_cons, List.flatMap_cons] at h
      -- the first lines of the first paragraphs show what a line holds
      have hhead : (wrapEven advance limit [] p).headD [] =
          (wrapEven advance' limit' [] p).headD [] := by
        have hh := congrArg (List.headD · []) h
        cases hw : wrapEven advance limit [] p with
        | nil => exact absurd hw (wrapEven_ne_nil [] p)
        | cons line lines =>
          cases hw' : wrapEven advance' limit' [] p with
          | nil => exact absurd hw' (wrapEven_ne_nil [] p)
          | cons line' lines' =>
            rw [hw, hw'] at hh
            exact hh
      have hp : ∀ n ≤ p.length, Breaks advance limit n ↔ Breaks advance' limit' n := by
        intro n hn
        have hn : n ≤ ([] : List Char).length + p.length := by simpa using hn
        rw [breaks_iff_head_lt (hempty _ _) hn, breaks_iff_head_lt (hempty _ _) hn, hhead]
      have hsame : wrapEven advance limit [] p = wrapEven advance' limit' [] p :=
        wrapEven_congr (by simpa using hp) (hempty _ _)
      rw [hsame] at h
      exact List.forall_mem_cons.mpr ⟨hp, ih (List.append_cancel_left h)⟩
  · intro h
    refine List.flatMap_congr fun p hp => ?_
    exact wrapEven_congr (by simpa using h p hp) (hempty _ _)

end

/-! ## 4. Estimates -/

/-- Line feeds only stand between paragraphs. -/
theorem not_mem_of_mem_paragraphs {text p : List Char} (h : p ∈ paragraphs text) : '\n' ∉ p := by
  induction text generalizing p with
  | nil =>
    rw [paragraphs, List.mem_singleton] at h
    simp [h]
  | cons c rest ih =>
    rw [paragraphs] at h
    split at h
    · obtain rfl | h := List.mem_cons.mp h
      · simp
      · exact ih h
    · rename_i hc
      have hc : '\n' ≠ c := Ne.symm hc
      split at h
      · rw [List.mem_singleton] at h
        simp [h, hc]
      · rename_i q qs hq
        obtain rfl | h := List.mem_cons.mp h
        · have hq : '\n' ∉ q := ih (by rw [hq]; exact List.mem_cons_self)
          simp [hc, hq]
        · exact ih (by rw [hq]; exact List.mem_cons_of_mem _ h)

end Text

namespace Estimate

/-- The width of a character that stands alone. -/
def charWidth (e : Estimate) (size : Float32) (weight : FontWeight) : Float32 :=
  Number.max 0 (Float32.ofNat 1 * e.advance size weight)

theorem advance_measure (e : Estimate) (size : Float32) (weight : FontWeight) {c : Char}
    (hc : c ≠ '\n') : e.measure.advance size weight c = e.charWidth size weight := by
  have hp : Text.paragraphs (String.singleton c).toList = [[c]] := by
    rw [String.toList_singleton, Text.paragraphs, if_neg hc]
    rfl
  rw [Measurer.advance, Estimate.measure, hp]
  rfl

theorem wrap_measure (e : Estimate) (size : Float32) (weight : FontWeight) (limit : Float32)
    (text : List Char) :
    Text.wrap (e.measure.advance size weight) (some limit) text =
      (Text.paragraphs text).flatMap (Text.wrapEven (e.charWidth size weight) limit []) := by
  refine List.flatMap_congr fun p hp => Text.wrapFrom_congr fun c hc => ?_
  exact e.advance_measure size weight fun h =>
    Text.not_mem_of_mem_paragraphs hp (h ▸ hc)

end Estimate

/-- Text that may be broken has the same lines by two estimates and two limits exactly when these
break the same numbers of characters, up to the longest paragraph. -/
theorem Lettering.wrappedLines_eq_iff {t : Lettering} (ht : t.lineLimit = none) (e e' : Estimate)
    (limit limit' : Float32) :
    t.wrappedLines e.measure (some limit) = t.wrappedLines e'.measure (some limit') ↔
      ∀ p ∈ Text.paragraphs t.content.toList, ∀ n ≤ p.length,
        Text.Breaks (e.charWidth t.fontSize t.fontWeight) limit n ↔
          Text.Breaks (e'.charWidth t.fontSize t.fontWeight) limit' n := by
  have hof : Function.Injective String.ofList := fun a b h => by
    simpa using congrArg String.toList h
  have hlines (e : Estimate) (limit : Float32) : t.wrappedLines e.measure (some limit) =
      ((Text.paragraphs t.content.toList).flatMap
        (Text.wrapEven (e.charWidth t.fontSize t.fontWeight) limit [])).map String.ofList := by
    rw [Lettering.wrappedLines, ht, if_neg (by simp), Measurer.wrap, Estimate.wrap_measure]
  rw [hlines, hlines, (List.map_injective_iff.mpr hof).eq_iff, Text.flatMap_wrapEven_eq_iff]

end ContentCard
