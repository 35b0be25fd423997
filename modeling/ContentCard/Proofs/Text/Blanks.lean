import ContentCard.Proofs.Text.Greedy
import Mathlib.Data.List.Induction

/-!
# Blanks at breaks

Where a line has no room for the next character (`Overflows`), the rest of the paragraph is broken
as a paragraph of its own, less that character if it is a blank (`wrapFrom_append_of_overflows`).
One blank is dropped, and no more.  So a paragraph leaves an empty line behind if its last character
is dropped, and a line begins with a blank if a second one follows.
-/

namespace ContentCard

namespace Text

/-! ## 1. The lines of a paragraph -/

/-- Without a limit a paragraph is one line. -/
def linesOf (advance : Char → Float32) (limit : Option Float32) (p : List Char) :
    List (List Char) :=
  match limit with
  | none => [p]
  | some limit => wrapFrom advance limit [] 0 p

theorem wrap_eq_flatMap (advance : Char → Float32) (limit : Option Float32) (text : List Char) :
    wrap advance limit text = (text.splitOn '\n').flatMap (linesOf advance limit) := by
  rw [← paragraphs_eq_splitOn]
  cases limit with
  | none => exact (List.flatMap_singleton' _).symm
  | some limit => rfl

/-! ## 2. No room for a character -/

section

variable {advance : Char → Float32} {limit : Float32}

/-- Whatever follows the beginning of a paragraph is put on from its last line. -/
theorem exists_wrapFrom_append_from (line front : List Char) :
    ∃ init last, wrapFrom advance limit line (widthOf advance line.reverse) front =
        init ++ [last] ∧
      ∀ rest, wrapFrom advance limit line (widthOf advance line.reverse) (front ++ rest) =
        init ++ wrapFrom advance limit last.reverse (widthOf advance last) rest := by
  induction front generalizing line with
  | nil => exact ⟨[], line.reverse, rfl, fun rest => by rw [List.reverse_reverse]; rfl⟩
  | cons c front ih =>
    by_cases hbreak : limit + tolerance < widthOf advance line.reverse + advance c ∧ line ≠ []
    · -- the next line starts with the character, unless that is dropped
      obtain ⟨init, last, hfront, happend⟩ := ih (if isBlank c then [] else [c])
      have hstep (rest : List Char) :
          wrapFrom advance limit line (widthOf advance line.reverse) (c :: rest) =
            line.reverse :: wrapFrom advance limit (if isBlank c then [] else [c])
              (widthOf advance (if isBlank c then [] else [c] : List Char).reverse) rest := by
        rw [wrapFrom, if_pos hbreak]
        split <;> rfl
      refine ⟨line.reverse :: init, last, ?_, fun rest => ?_⟩
      · rw [hstep, hfront]
        rfl
      · rw [List.cons_append, hstep, happend]
        rfl
    · obtain ⟨init, last, hfront, happend⟩ := ih (c :: line)
      have hwidth : widthOf advance (c :: line).reverse =
          widthOf advance line.reverse + advance c := by
        rw [List.reverse_cons, widthOf_concat]
      rw [hwidth] at hfront happend
      refine ⟨init, last, ?_, fun rest => ?_⟩
      · rw [wrapFrom, if_neg hbreak, hfront]
      · rw [List.cons_append, wrapFrom, if_neg hbreak, happend]

variable (advance limit) in
theorem exists_wrapFrom_append (front : List Char) :
    ∃ init last, wrapFrom advance limit [] 0 front = init ++ [last] ∧
      ∀ rest, wrapFrom advance limit [] 0 (front ++ rest) =
        init ++ wrapFrom advance limit last.reverse (widthOf advance last) rest :=
  exists_wrapFrom_append_from [] front

theorem wrapFrom_ne_nil (p : List Char) : wrapFrom advance limit [] 0 p ≠ [] := by
  obtain ⟨init, last, hlines, -⟩ := exists_wrapFrom_append advance limit p
  simp [hlines]

/-- The last line of the beginning of a paragraph has no room for the next character. -/
def Overflows (advance : Char → Float32) (limit : Float32) (front : List Char) (c : Char) : Prop :=
  ∃ line, (wrapFrom advance limit [] 0 front).getLast? = some line ∧ line ≠ [] ∧
    limit + tolerance < widthOf advance line + advance c

variable {front : List Char} {c : Char}

/-- Behind a break the paragraph goes on like a new one, and one blank is dropped. -/
theorem wrapFrom_append_of_overflows (h : Overflows advance limit front c) (rest : List Char) :
    wrapFrom advance limit [] 0 (front ++ c :: rest) =
      wrapFrom advance limit [] 0 front ++
        wrapFrom advance limit [] 0 (if isBlank c then rest else c :: rest) := by
  obtain ⟨init, last, hfront, happend⟩ := exists_wrapFrom_append advance limit front
  obtain ⟨line, hline, hne, hwide⟩ := h
  obtain rfl : last = line := by
    have hlast : (wrapFrom advance limit [] 0 front).getLast? = some last := by
      rw [hfront, List.getLast?_concat]
    exact Option.some.inj (hlast.symm.trans hline)
  calc
    wrapFrom advance limit [] 0 (front ++ c :: rest)
      = init ++ wrapFrom advance limit last.reverse (widthOf advance last) (c :: rest) :=
        happend (c :: rest)
    _ = init ++ last :: wrapFrom advance limit [] 0 (if isBlank c then rest else c :: rest) := by
        rw [wrapFrom_cons_of_wide hwide (mt List.reverse_eq_nil_iff.mp hne), List.reverse_reverse]
    _ = (init ++ [last]) ++
          wrapFrom advance limit [] 0 (if isBlank c then rest else c :: rest) := by
        rw [List.append_assoc]
        rfl
    _ = _ := by rw [← hfront]

theorem wrapFrom_concat_of_not_overflows (h : ¬Overflows advance limit front c) :
    ∃ init last, wrapFrom advance limit [] 0 front = init ++ [last] ∧
      wrapFrom advance limit [] 0 (front ++ [c]) = init ++ [last ++ [c]] := by
  obtain ⟨init, last, hfront, happend⟩ := exists_wrapFrom_append advance limit front
  have hroom : ¬(limit + tolerance < widthOf advance last + advance c ∧ last.reverse ≠ []) := by
    rintro ⟨hwide, hne⟩
    refine h ⟨last, ?_, mt List.reverse_eq_nil_iff.mpr hne, hwide⟩
    rw [hfront, List.getLast?_concat]
  refine ⟨init, last, hfront, (happend [c]).trans ?_⟩
  rw [wrapFrom, if_neg hroom, wrapFrom, List.reverse_cons, List.reverse_reverse]

/-! ## 3. Empty lines -/

/-- Every line but the last one keeps a character. -/
theorem ne_nil_of_mem_dropLast {p line : List Char}
    (h : line ∈ (wrapFrom advance limit [] 0 p).dropLast) : line ≠ [] := by
  obtain ⟨b, hlines, -, hgreedy⟩ := exists_breaking advance limit p
  rw [← hlines, Breaking.lines, List.dropLast_concat] at h
  obtain ⟨x, hx, rfl⟩ := List.mem_map.mp h
  exact hgreedy.nonempty x hx

/-- The last line keeps none if a blank is dropped behind the last break. -/
theorem getLast?_wrapFrom_eq_nil_iff (p : List Char) :
    (wrapFrom advance limit [] 0 p).getLast? = some [] ↔
      p = [] ∨ ∃ front c, p = front ++ [c] ∧ isBlank c ∧ Overflows advance limit front c := by
  obtain rfl | ⟨front, c, rfl⟩ := List.eq_nil_or_concat' p
  · exact ⟨fun _ => .inl rfl, fun _ => rfl⟩
  have hconcat : (∃ front' c', front ++ [c] = front' ++ [c'] ∧ isBlank c' ∧
      Overflows advance limit front' c') ↔ isBlank c ∧ Overflows advance limit front c := by
    constructor
    · rintro ⟨front', c', heq, hblank, hover⟩
      obtain ⟨rfl, rfl⟩ := List.append_singleton_inj.mp heq
      exact ⟨hblank, hover⟩
    · rintro ⟨hblank, hover⟩
      exact ⟨front, c, rfl, hblank, hover⟩
  rw [hconcat, or_iff_right (List.append_ne_nil_of_right_ne_nil _ (List.cons_ne_nil _ _))]
  by_cases hover : Overflows advance limit front c
  · rw [wrapFrom_append_of_overflows hover, List.getLast?_append, and_iff_left hover]
    by_cases hblank : isBlank c
    · rw [if_pos hblank]
      exact ⟨fun _ => hblank, fun _ => rfl⟩
    · rw [if_neg hblank, wrapFrom, if_neg (fun h => h.2 rfl)]
      exact ⟨fun h => absurd (Option.some.inj h) (by simp), fun h => absurd h hblank⟩
  · obtain ⟨init, last, -, hlines⟩ := wrapFrom_concat_of_not_overflows hover
    rw [hlines, List.getLast?_concat]
    exact ⟨fun h => absurd (Option.some.inj h) (by simp), fun h => absurd h.2 hover⟩

theorem nil_mem_wrapFrom_iff (p : List Char) :
    [] ∈ wrapFrom advance limit [] 0 p ↔
      p = [] ∨ ∃ front c, p = front ++ [c] ∧ isBlank c ∧ Overflows advance limit front c := by
  rw [← getLast?_wrapFrom_eq_nil_iff]
  refine ⟨fun h => ?_, List.mem_of_getLast?⟩
  obtain ⟨init, last, hlines, -⟩ := exists_wrapFrom_append advance limit p
  have hdrop : (wrapFrom advance limit [] 0 p).dropLast = init := by
    rw [hlines, List.dropLast_concat]
  have hinit : [] ∉ init := fun hmem => ne_nil_of_mem_dropLast (hdrop ▸ hmem) rfl
  rw [hlines] at h ⊢
  rw [List.getLast?_concat, ← List.mem_singleton.mp ((List.mem_append.mp h).resolve_left hinit)]

/-- A paragraph that is not empty leaves more behind than an empty line. -/
theorem wrapFrom_ne_singleton_nil {p : List Char} (hp : p ≠ []) :
    wrapFrom advance limit [] 0 p ≠ [[]] := by
  intro h
  have hlast : (wrapFrom advance limit [] 0 p).getLast? = some [] := by rw [h]; rfl
  obtain ⟨front, c, rfl, hblank, hover⟩ :=
    ((getLast?_wrapFrom_eq_nil_iff p).mp hlast).resolve_left hp
  rw [wrapFrom_append_of_overflows hover, if_pos hblank] at h
  have hfront : wrapFrom advance limit [] 0 front ++ [[]] = [] ++ [[]] := h
  exact wrapFrom_ne_nil front (List.append_cancel_right hfront)

/-! ## 4. Lines that begin with a blank -/

def StartsBlank (line : List Char) : Prop := ∃ c ∈ line.head?, isBlank c

/-- Two blanks follow each other, and the first one is dropped at a break. -/
def HasBlankBehindBreak (advance : Char → Float32) (limit : Float32) (p : List Char) : Prop :=
  ∃ front c d back, p = front ++ c :: d :: back ∧ isBlank c ∧ isBlank d ∧
    Overflows advance limit front c

theorem hasBlankBehindBreak_concat_iff {d : Char} :
    HasBlankBehindBreak advance limit (front ++ [d]) ↔
      HasBlankBehindBreak advance limit front ∨
        isBlank d ∧ front ≠ [] ∧ (wrapFrom advance limit [] 0 front).getLast? = some [] := by
  rw [getLast?_wrapFrom_eq_nil_iff]
  constructor
  · rintro ⟨front', c, d', back, heq, hc, hd, hover⟩
    obtain rfl | ⟨back, e, rfl⟩ := List.eq_nil_or_concat' back
    · -- the second blank is the last character
      have heq : front ++ [d] = (front' ++ [c]) ++ [d'] := by simpa using heq
      obtain ⟨rfl, rfl⟩ := List.append_singleton_inj.mp heq
      exact .inr ⟨hd, by simp, .inr ⟨front', c, rfl, hc, hover⟩⟩
    · have heq : front ++ [d] = (front' ++ c :: d' :: back) ++ [e] := by simpa using heq
      obtain ⟨rfl, rfl⟩ := List.append_singleton_inj.mp heq
      exact .inl ⟨front', c, d', back, rfl, hc, hd, hover⟩
  · rintro (⟨front', c, d', back, rfl, hc, hd, hover⟩ |
      ⟨hd, hne, hnil | ⟨front', c, rfl, hc, hover⟩⟩)
    · exact ⟨front', c, d', back ++ [d], by simp, hc, hd, hover⟩
    · exact absurd hnil hne
    · exact ⟨front', c, d, [], by simp, hc, hd, hover⟩

theorem startsBlank_concat_iff {line : List Char} {d : Char} :
    StartsBlank (line ++ [d]) ↔ StartsBlank line ∨ isBlank d ∧ line = [] := by
  cases line <;> simp [StartsBlank]

/-- A blank begins a line behind the first one if it is put on an empty line there. -/
theorem exists_startsBlank_concat_iff (front : List Char) (d : Char) :
    (∃ line ∈ (wrapFrom advance limit [] 0 (front ++ [d])).tail, StartsBlank line) ↔
      (∃ line ∈ (wrapFrom advance limit [] 0 front).tail, StartsBlank line) ∨
        isBlank d ∧ front ≠ [] ∧ (wrapFrom advance limit [] 0 front).getLast? = some [] := by
  by_cases hover : Overflows advance limit front d
  · -- the last line is not empty, and the new one is, or begins with what is no blank
    have hlast : (wrapFrom advance limit [] 0 front).getLast? ≠ some [] := by
      obtain ⟨line, hline, hne, -⟩ := hover
      rw [hline]
      exact fun h => hne (Option.some.inj h)
    have hnew : wrapFrom advance limit [] 0 (if isBlank d then [] else [d]) =
        [if isBlank d then [] else [d]] := wrapFrom_of_fits (fits_of_length_le (by split <;> simp))
    have hstart : ¬StartsBlank (if isBlank d then [] else [d]) := by
      split <;> simp_all [StartsBlank]
    rw [wrapFrom_append_of_overflows hover, hnew,
      List.tail_append_of_ne_nil (wrapFrom_ne_nil front)]
    simp [hlast, hstart, or_and_right, exists_or]
  · obtain ⟨init, last, hfront, hlines⟩ := wrapFrom_concat_of_not_overflows hover
    rw [hlines, hfront, List.getLast?_concat, Option.some_inj]
    cases init with
    | nil =>
      have hfirst : ¬(front ≠ [] ∧ last = []) := by
        rintro ⟨hne, rfl⟩
        exact wrapFrom_ne_singleton_nil hne hfront
      simp [hfirst]
    | cons first init =>
      have hne : front ≠ [] := by
        rintro rfl
        simp [wrapFrom] at hfront
      simp [hne, startsBlank_concat_iff, or_and_right, exists_or, or_assoc]

theorem exists_startsBlank_iff (p : List Char) :
    (∃ line ∈ (wrapFrom advance limit [] 0 p).tail, StartsBlank line) ↔
      HasBlankBehindBreak advance limit p := by
  induction p using List.reverseRecOn with
  | nil => simp [wrapFrom, HasBlankBehindBreak]
  | append_singleton front d ih =>
    rw [exists_startsBlank_concat_iff, hasBlankBehindBreak_concat_iff, ih]

end

end Text

namespace Measurer

/-- Every line of a paragraph but the last one keeps a character.  The last one keeps none exactly
if the paragraph is empty or ends in a blank that its line has no room for: that blank is dropped,
and an empty line is added to those before it.  Without a limit there is no such line. -/
theorem wrap_empty_lines (m : Measurer) (text : String) (size : Float32) (weight : FontWeight)
    (limit : Option Float32) :
    let advance := m.advance size weight
    let lines := Text.linesOf advance limit
    m.wrap text size weight limit =
        ((text.toList.splitOn '\n').flatMap lines).map String.ofList ∧
      ∀ p, (∀ line ∈ (lines p).dropLast, line ≠ []) ∧
        ([] ∈ lines p ↔ p = [] ∨ ∃ l ∈ limit, ∃ front c,
          p = front ++ [c] ∧ Text.isBlank c ∧ Text.Overflows advance l front c ∧
            lines p = lines front ++ [[]]) := by
  intro advance lines
  refine ⟨congrArg _ (Text.wrap_eq_flatMap advance limit text.toList), fun p => ?_⟩
  cases limit with
  | none =>
    refine ⟨nofun, List.mem_singleton.trans ⟨fun h => .inl h.symm, ?_⟩⟩
    rintro (h | ⟨l, hl, -⟩)
    · exact h.symm
    · nomatch hl
  | some l =>
    refine ⟨fun line => Text.ne_nil_of_mem_dropLast, (Text.nil_mem_wrapFrom_iff p).trans ?_⟩
    refine or_congr_right ⟨?_, ?_⟩
    · rintro ⟨front, c, rfl, hblank, hover⟩
      refine ⟨l, rfl, front, c, rfl, hblank, hover, ?_⟩
      exact (Text.wrapFrom_append_of_overflows hover []).trans (by rw [if_pos hblank]; rfl)
    · rintro ⟨l', hl, front, c, rfl, hblank, hover, -⟩
      obtain rfl := Option.some.inj hl
      exact ⟨front, c, rfl, hblank, hover⟩

/-- Six characters in the width of five: the blank at the end has no room and is dropped, and an
empty line is left. -/
theorem not_forall_lines_keep_characters :
    ¬ ∀ (m : Measurer) (text : String) (size : Float32) (weight : FontWeight)
      (limit : Option Float32), "" ∈ m.wrap text size weight limit →
        [] ∈ text.toList.splitOn '\n' := by
  intro h
  have hempty := h (Estimate.measure {}) "abcde " 10 .regular (some 30) (by decide +kernel)
  exact absurd hempty (by decide)

/-- At a break one blank is dropped, and the rest of the paragraph is broken like a new one.  So a
line behind the first one begins with a blank exactly if two blanks follow each other where the
line before has no room for the first. -/
theorem wrap_line_starts (m : Measurer) (text : String) (size : Float32) (weight : FontWeight)
    (limit : Option Float32) :
    let advance := m.advance size weight
    let lines := Text.linesOf advance limit
    m.wrap text size weight limit =
        ((text.toList.splitOn '\n').flatMap lines).map String.ofList ∧
      (∀ l ∈ limit, ∀ front c rest, Text.Overflows advance l front c →
        lines (front ++ c :: rest) =
          lines front ++ lines (if Text.isBlank c then rest else c :: rest)) ∧
      ∀ p, (∃ line ∈ (lines p).tail, ∃ c ∈ line.head?, Text.isBlank c) ↔
        ∃ l ∈ limit, ∃ front c d back, p = front ++ c :: d :: back ∧
          Text.isBlank c ∧ Text.isBlank d ∧ Text.Overflows advance l front c := by
  intro advance lines
  refine ⟨congrArg _ (Text.wrap_eq_flatMap advance limit text.toList), ?_, fun p => ?_⟩
  · rintro l rfl front c rest hover
    exact Text.wrapFrom_append_of_overflows hover rest
  · cases limit with
    | none => simp [lines, Text.linesOf]
    | some l =>
      refine (Text.exists_startsBlank_iff p).trans ⟨fun h => ⟨l, rfl, h⟩, ?_⟩
      rintro ⟨l', hl, h⟩
      obtain rfl := Option.some.inj hl
      exact h

/-- The first of two blanks is dropped at the break, and the second one begins the next line. -/
theorem not_forall_blanks_dropped :
    ¬ ∀ (m : Measurer) (text : String) (size : Float32) (weight : FontWeight)
      (limit : Option Float32), '\n' ∉ text.toList →
        ∀ line ∈ (m.wrap text size weight limit).tail, ∀ c ∈ line.toList.head?, ¬Text.isBlank c := by
  intro h
  have hline := h (Estimate.measure {}) "abcde  fghij" 10 .regular (some 30) (by decide) " fghi"
    (by decide +kernel) ' ' (by decide)
  exact hline (by decide)

end Measurer

end ContentCard
