import ContentCard.Text.Measure
import Mathlib.Data.List.Basic

/-!
# Greedy lines

Breaking a paragraph takes nothing from it but blanks at the breaks, and it breaks only where the
next character does not fit (`Breaking.IsGreedy`).  This settles the lines: there is no other way to
break a paragraph greedily (`Breaking.IsGreedy.wrapFrom_eq`).
-/

namespace ContentCard

namespace Text

/-! ## 1. Paragraphs -/

theorem paragraphs_eq_splitOn (text : List Char) : paragraphs text = text.splitOn '\n' := by
  induction text with
  | nil => rfl
  | cons c rest ih =>
    rw [paragraphs, List.splitOn_cons_eq_if_modifyHead, ih]
    by_cases hc : c = '\n'
    · rw [if_pos hc, if_pos (beq_iff_eq.mpr hc)]
    · rw [if_neg hc, if_neg (mt beq_iff_eq.mp hc)]
      cases h : rest.splitOn '\n' with
      | nil => exact absurd h (List.splitOn_ne_nil _ _)
      | cons p ps => rfl

/-! ## 2. Lines that fit -/

/-- The widths of characters, summed from the left to the right. -/
def widthOf (advance : Char → Float32) (line : List Char) : Float32 :=
  line.foldl (fun width c => width + advance c) 0

theorem widthOf_concat (advance : Char → Float32) (line : List Char) (c : Char) :
    widthOf advance (line ++ [c]) = widthOf advance line + advance c :=
  List.foldl_append

/-- No part of two characters or more from the line's start is wider than the limit.  A single
character may be. -/
def Fits (advance : Char → Float32) (limit : Float32) (line : List Char) : Prop :=
  ∀ head, head <+: line → 2 ≤ head.length → ¬limit + tolerance < widthOf advance head

section

variable {advance : Char → Float32} {limit : Float32}

theorem fits_of_length_le {line : List Char} (h : line.length ≤ 1) : Fits advance limit line :=
  fun head hhead htwo => by
    have := hhead.length_le
    omega

theorem Fits.of_prefix {head line : List Char} (h : Fits advance limit line)
    (hhead : head <+: line) : Fits advance limit head :=
  fun part hpart => h part (hpart.trans hhead)

theorem fits_concat_iff {line : List Char} {c : Char} :
    Fits advance limit (line ++ [c]) ↔
      Fits advance limit line ∧
        (line ≠ [] → ¬limit + tolerance < widthOf advance line + advance c) := by
  constructor
  · intro h
    refine ⟨h.of_prefix (List.prefix_append line [c]), fun hne => ?_⟩
    rw [← widthOf_concat]
    have := List.length_pos_iff.mpr hne
    exact h _ (List.prefix_refl _) (by simp only [List.length_append, List.length_singleton]; omega)
  · rintro ⟨h, hlast⟩ head hhead htwo
    obtain rfl | hhead := List.prefix_concat_iff.mp hhead
    · rw [widthOf_concat]
      refine hlast fun hnil => ?_
      simp [hnil] at htwo
    · exact h head hhead htwo

end

/-! ## 3. Breaking a paragraph -/

/-- A line that was broken, and what was dropped behind it. -/
structure Break where
  line : List Char
  dropped : List Char

/-- A paragraph in lines: the last one was not broken. -/
structure Breaking where
  breaks : List Break
  last : List Char

namespace Breaking

def lines (b : Breaking) : List (List Char) := b.breaks.map Break.line ++ [b.last]

/-- The lines with what was dropped between them. -/
def paragraph (b : Breaking) : List Char :=
  b.breaks.flatMap (fun x => x.line ++ x.dropped) ++ b.last

/-- Every line fits.  A break stands behind at least one character and before one that would make
the line too wide; that one is dropped if it is blank, and nothing else is. -/
structure IsGreedy (advance : Char → Float32) (limit : Float32) (b : Breaking) : Prop where
  fits : ∀ line ∈ b.lines, Fits advance limit line
  nonempty : ∀ x ∈ b.breaks, x.line ≠ []
  forced : ∀ x behind, x :: behind <:+ b.breaks →
    ∃ c ∈ (x.dropped ++ paragraph ⟨behind, b.last⟩).head?,
      limit + tolerance < widthOf advance x.line + advance c ∧
        x.dropped = if isBlank c then [c] else []

theorem paragraph_cons (x : Break) (breaks : List Break) (last : List Char) :
    paragraph ⟨x :: breaks, last⟩ = x.line ++ (x.dropped ++ paragraph ⟨breaks, last⟩) := by
  simp [paragraph]

theorem lines_ne_nil (b : Breaking) : b.lines ≠ [] := by simp [lines]

/-- The lines have no characters but those of the paragraph. -/
theorem mem_paragraph {b : Breaking} {line : List Char} (hline : line ∈ b.lines) {c : Char}
    (hc : c ∈ line) : c ∈ b.paragraph := by
  obtain hline | hline := List.mem_append.mp hline
  · obtain ⟨x, hx, rfl⟩ := List.mem_map.mp hline
    exact List.mem_append_left _ (List.mem_flatMap.mpr ⟨x, hx, List.mem_append_left _ hc⟩)
  · obtain rfl := List.mem_singleton.mp hline
    exact List.mem_append_right _ hc

variable {advance : Char → Float32} {limit : Float32}

theorem isGreedy_unbroken {line : List Char} (h : Fits advance limit line) :
    IsGreedy advance limit ⟨[], line⟩ where
  fits := by simpa [lines] using h
  nonempty := nofun
  forced x behind h := absurd (List.suffix_nil.mp h) (List.cons_ne_nil _ _)

/-- One more line in front. -/
theorem IsGreedy.cons {b : Breaking} (h : b.IsGreedy advance limit) {x : Break}
    (hfits : Fits advance limit x.line) (hne : x.line ≠ []) {c : Char}
    (hnext : c ∈ (x.dropped ++ b.paragraph).head?)
    (hwide : limit + tolerance < widthOf advance x.line + advance c)
    (hdropped : x.dropped = if isBlank c then [c] else []) :
    IsGreedy advance limit ⟨x :: b.breaks, b.last⟩ where
  fits := List.forall_mem_cons.mpr ⟨hfits, h.fits⟩
  nonempty := List.forall_mem_cons.mpr ⟨hne, h.nonempty⟩
  forced y behind hsuffix := by
    obtain heq | hsuffix := List.suffix_cons_iff.mp hsuffix
    · obtain ⟨rfl, rfl⟩ := List.cons.inj heq
      exact ⟨c, hnext, hwide, hdropped⟩
    · exact h.forced y behind hsuffix

end Breaking

section

variable {advance : Char → Float32} {limit : Float32}

/-- The lines from inside a line that fits, given as it is reversed. -/
theorem exists_breaking_from {line : List Char} (rest : List Char)
    (hfits : Fits advance limit line.reverse) :
    ∃ b : Breaking, b.lines = wrapFrom advance limit line (widthOf advance line.reverse) rest ∧
      b.paragraph = line.reverse ++ rest ∧ b.IsGreedy advance limit := by
  induction rest generalizing line with
  | nil =>
    exact ⟨⟨[], line.reverse⟩, rfl, by simp [Breaking.paragraph],
      Breaking.isGreedy_unbroken hfits⟩
  | cons c rest ih =>
    rw [wrapFrom]
    split
    next hbreak =>
      obtain ⟨hwide, hne⟩ := hbreak
      -- the next line begins with the character that did not fit, unless that is dropped
      have hstart : Fits advance limit (if isBlank c then [] else [c] : List Char).reverse :=
        fits_of_length_le (by split <;> simp)
      obtain ⟨b, hlines, hparagraph, hgreedy⟩ := ih hstart
      have hnext : (if isBlank c then [c] else []) ++ b.paragraph = c :: rest := by
        rw [hparagraph]
        split <;> simp
      refine ⟨⟨⟨line.reverse, if isBlank c then [c] else []⟩ :: b.breaks, b.last⟩, ?_, ?_,
        hgreedy.cons hfits (mt List.reverse_eq_nil_iff.mp hne) (c := c) ?_ hwide rfl⟩
      · show line.reverse :: b.lines = _
        rw [hlines]
        split <;> rfl
      · rw [Breaking.paragraph_cons, hnext]
      · rw [hnext]
        exact Option.mem_some_self c
    next hbreak =>
      have hreverse : (c :: line).reverse = line.reverse ++ [c] := List.reverse_cons
      have hfits' : Fits advance limit (c :: line).reverse := by
        rw [hreverse, fits_concat_iff]
        exact ⟨hfits, fun hne hwide => hbreak ⟨hwide, mt List.reverse_eq_nil_iff.mpr hne⟩⟩
      obtain ⟨b, hlines, hparagraph, hgreedy⟩ := ih hfits'
      rw [hreverse, widthOf_concat] at hlines
      refine ⟨b, hlines, ?_, hgreedy⟩
      rw [hparagraph, hreverse, List.append_assoc]
      rfl

variable (advance limit) in
theorem exists_breaking (p : List Char) :
    ∃ b : Breaking, b.lines = wrapFrom advance limit [] 0 p ∧ b.paragraph = p ∧
      b.IsGreedy advance limit :=
  exists_breaking_from p (fits_of_length_le (Nat.zero_le 1))

/-- What fits on the line is put there. -/
theorem wrapFrom_append {line more rest : List Char}
    (h : Fits advance limit (line.reverse ++ more)) :
    wrapFrom advance limit line (widthOf advance line.reverse) (more ++ rest) =
      wrapFrom advance limit (more.reverse ++ line) (widthOf advance (line.reverse ++ more))
        rest := by
  induction more generalizing line with
  | nil => simp
  | cons c more ih =>
    have hreverse : (c :: line).reverse = line.reverse ++ [c] := List.reverse_cons
    have happend : (c :: line).reverse ++ more = line.reverse ++ c :: more := by simp
    have hkeep : ¬(limit + tolerance < widthOf advance line.reverse + advance c ∧ line ≠ []) := by
      rintro ⟨hwide, hne⟩
      have hfirst : Fits advance limit (line.reverse ++ [c]) :=
        h.of_prefix ⟨more, by rw [← hreverse, happend]⟩
      exact (fits_concat_iff.mp hfirst).2 (mt List.reverse_eq_nil_iff.mp hne) hwide
    rw [List.cons_append, wrapFrom, if_neg hkeep, ← widthOf_concat, ← hreverse,
      ih (happend ▸ h), happend]
    congr 1
    simp

theorem wrapFrom_start {line : List Char} (h : Fits advance limit line) (rest : List Char) :
    wrapFrom advance limit [] 0 (line ++ rest) =
      wrapFrom advance limit line.reverse (widthOf advance line) rest := by
  have hfill := @wrapFrom_append advance limit [] line rest h
  rwa [List.append_nil] at hfill

theorem wrapFrom_of_fits {line : List Char} (h : Fits advance limit line) :
    wrapFrom advance limit [] 0 line = [line] := by
  have hfill := wrapFrom_start h []
  rwa [List.append_nil, wrapFrom, List.reverse_reverse] at hfill

/-- A character that does not fit begins a new paragraph, so to say. -/
theorem wrapFrom_cons_of_wide {line rest : List Char} {width : Float32} {c : Char}
    (hwide : limit + tolerance < width + advance c) (hne : line ≠ []) :
    wrapFrom advance limit line width (c :: rest) =
      line.reverse :: wrapFrom advance limit [] 0 (if isBlank c then rest else c :: rest) := by
  rw [wrapFrom, if_pos ⟨hwide, hne⟩]
  split
  · rfl
  · rw [wrapFrom, if_neg (fun h => h.2 rfl)]

/-- There is one greedy way to break a paragraph. -/
theorem Breaking.IsGreedy.wrapFrom_eq {b : Breaking} (h : b.IsGreedy advance limit) :
    wrapFrom advance limit [] 0 b.paragraph = b.lines := by
  obtain ⟨breaks, last⟩ := b
  induction breaks with
  | nil => exact wrapFrom_of_fits (h.fits last (List.mem_append_right _ List.mem_cons_self))
  | cons x breaks ih =>
    have hrest : IsGreedy advance limit ⟨breaks, last⟩ :=
      ⟨fun line hline => h.fits line (List.mem_cons_of_mem _ hline),
        fun y hy => h.nonempty y (List.mem_cons_of_mem _ hy),
        fun y behind hsuffix => h.forced y behind (hsuffix.trans (List.suffix_cons x breaks))⟩
    have hfits : Fits advance limit x.line := h.fits x.line List.mem_cons_self
    have hne : x.line.reverse ≠ [] :=
      mt List.reverse_eq_nil_iff.mp (h.nonempty x List.mem_cons_self)
    obtain ⟨c, hc, hwide, hdropped⟩ := h.forced x breaks List.suffix_rfl
    obtain ⟨rest, hrest'⟩ := List.head?_eq_some_iff.mp hc
    have hnext : (if isBlank c then rest else c :: rest) = paragraph ⟨breaks, last⟩ := by
      rw [hdropped] at hrest'
      split at hrest' <;> simp_all
    rw [paragraph_cons, hrest']
    calc
      wrapFrom advance limit [] 0 (x.line ++ c :: rest)
        = wrapFrom advance limit x.line.reverse (widthOf advance x.line) (c :: rest) :=
          wrapFrom_start hfits (c :: rest)
      _ = x.line :: wrapFrom advance limit [] 0 (paragraph ⟨breaks, last⟩) := by
          rw [wrapFrom_cons_of_wide hwide hne, List.reverse_reverse, hnext]
      _ = _ := by
          rw [ih hrest]
          rfl

/-- A paragraph stays one line exactly if it fits. -/
theorem wrapFrom_eq_singleton_iff {line : List Char} :
    wrapFrom advance limit [] 0 line = [line] ↔ Fits advance limit line := by
  refine ⟨fun h => ?_, wrapFrom_of_fits⟩
  obtain ⟨b, hlines, -, hgreedy⟩ := exists_breaking advance limit line
  exact hgreedy.fits line (by rw [hlines]; exact h ▸ List.mem_cons_self)

end

end Text

/-- Without a limit only line feeds break a text.  With one its paragraphs are broken greedily. -/
theorem Measurer.wrap_lossless_greedy (m : Measurer) (text : String) (size : Float32)
    (weight : FontWeight) :
    m.wrap text size weight none = (text.toList.splitOn '\n').map String.ofList ∧
      ∀ limit, ∃ bs : List Text.Breaking,
        bs.map Text.Breaking.paragraph = text.toList.splitOn '\n' ∧
          m.wrap text size weight (some limit) =
            (bs.flatMap Text.Breaking.lines).map String.ofList ∧
          ∀ b ∈ bs, b.IsGreedy (m.advance size weight) limit := by
  refine ⟨by rw [← Text.paragraphs_eq_splitOn]; rfl, fun limit => ?_⟩
  choose breaking hlines hparagraph hgreedy using
    Text.exists_breaking (m.advance size weight) limit
  refine ⟨(Text.paragraphs text.toList).map breaking, ?_, ?_, ?_⟩
  · rw [List.map_map, ← Text.paragraphs_eq_splitOn]
    exact List.map_id'' hparagraph _
  · rw [Measurer.wrap, Text.wrap, List.flatMap_map]
    exact congrArg _ (List.flatMap_congr fun p _ => (hlines p).symm)
  · simpa using fun p _ => hgreedy p

end ContentCard
