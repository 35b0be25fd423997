import ContentCard.Color
import ContentCard.Proofs.Text.Trim
import Mathlib.Data.List.Forall2
import Mathlib.Tactic.IntervalCases

/-!
# The notation of colours

A text behind the sign `#` is read digit by digit and always gives a colour; a text without the sign
gives one if it is a name of the palette.  `Spells` says which colour it is.  Neither the case of
letters nor blanks around the text make a difference.
-/

namespace ContentCard.Color

/-! ## 1. Hexadecimal digits -/

/-- A hexadecimal digit, in either case, and its value. -/
def IsHexDigit (c : Char) (d : ℕ) : Prop := d < 16 ∧ c.toLower = Nat.digitChar d

instance (c : Char) (d : ℕ) : Decidable (IsHexDigit c d) :=
  inferInstanceAs (Decidable (d < 16 ∧ c.toLower = Nat.digitChar d))

theorem toNat_digitChar {d : ℕ} (hd : d < 16) :
    (Nat.digitChar d).toNat = if d < 10 then d + 48 else d + 87 := by
  interval_cases d <;> rfl

theorem hexDigit?_eq (c : Char) : hexDigit? c =
    if 48 ≤ c.toNat ∧ c.toNat ≤ 57 then some (c.toNat - 48)
    else if 97 ≤ c.toNat ∧ c.toNat ≤ 102 then some (c.toNat - 87)
    else if 65 ≤ c.toNat ∧ c.toNat ≤ 70 then some (c.toNat - 55)
    else none := by
  have hdigit : c.isDigit = true ↔ 48 ≤ c.toNat ∧ c.toNat ≤ 57 := by
    simp only [Char.isDigit, Bool.and_eq_true, decide_eq_true_eq]
    exact Iff.rfl
  simp only [hexDigit?, hdigit]
  rfl

theorem hexDigit?_eq_some_iff {c : Char} {d : ℕ} : hexDigit? c = some d ↔ IsHexDigit c d := by
  rw [hexDigit?_eq, IsHexDigit, ← Char.toNat_inj, Text.toNat_toLower]
  -- both sides are comparisons of the character's number
  constructor
  · intro h
    have hd : d < 16 := by split_ifs at h <;> injections <;> omega
    refine ⟨hd, ?_⟩
    rw [toNat_digitChar hd]
    split_ifs at h ⊢ <;> injections <;> omega
  · rintro ⟨hd, h⟩
    rw [toNat_digitChar hd] at h
    split_ifs at h ⊢ <;> first | omega | exact congrArg some (by omega)

theorem hexDigit?_toLower (c : Char) : hexDigit? c.toLower = hexDigit? c := by
  refine Option.ext fun d => ?_
  simp only [hexDigit?_eq_some_iff, IsHexDigit, Text.toLower_toLower]

theorem isHexDigit_iff {c : Char} : c.isHexDigit ↔ ∃ d, IsHexDigit c d := by
  have hranges : c.isHexDigit = true ↔ 48 ≤ c.toNat ∧ c.toNat ≤ 57 ∨
      97 ≤ c.toNat ∧ c.toNat ≤ 102 ∨ 65 ≤ c.toNat ∧ c.toNat ≤ 70 := by
    simp only [Char.isHexDigit, Char.isDigit, Bool.or_eq_true, Bool.and_eq_true, decide_eq_true_eq,
      or_assoc]
    exact Iff.rfl
  simp only [hranges, ← hexDigit?_eq_some_iff, hexDigit?_eq]
  split_ifs <;> simp <;> omega

theorem mapM_hexDigit?_eq_some_iff {cs : List Char} {ds : List ℕ} :
    cs.mapM hexDigit? = some ds ↔ List.Forall₂ IsHexDigit cs ds := by
  induction cs generalizing ds with
  | nil => simp [eq_comm]
  | cons c cs ih =>
    simp only [List.mapM_cons, Option.bind_eq_bind, Option.bind_eq_some_iff, hexDigit?_eq_some_iff,
      ih, List.forall₂_cons_left_iff]
    constructor
    · rintro ⟨d, hd, es, hes, h⟩
      exact ⟨d, es, hd, hes, (Option.some.inj h).symm⟩
    · rintro ⟨d, es, hd, hes, rfl⟩
      exact ⟨d, hd, es, hes, rfl⟩

/-! ## 2. The digits of a colour -/

theorem hex?_eq_some_iff {cs : List Char} {c : Color} :
    hex? cs = some c ↔ ∃ ds, List.Forall₂ IsHexDigit cs ds ∧ ofDigits? ds = some c := by
  simp only [hex?, Option.bind_eq_some_iff, mapM_hexDigit?_eq_some_iff]

theorem ofDigits?_eq_none_iff {ds : List ℕ} :
    ofDigits? ds = none ↔ ds.length ∉ [3, 6, 8] := by
  -- the list is taken apart up to nine digits
  rcases ds with _ | ⟨_, _ | ⟨_, _ | ⟨_, _ | ⟨_, _ | ⟨_, _ | ⟨_, _ | ⟨_, _ | ⟨_, _ | ⟨_, _⟩⟩⟩⟩⟩⟩⟩⟩⟩
  all_goals simp [ofDigits?]

theorem hex?_eq_none_iff {cs : List Char} :
    hex? cs = none ↔ ∀ ds, List.Forall₂ IsHexDigit cs ds → ds.length ∉ [3, 6, 8] := by
  simp only [hex?, Option.bind_eq_none_iff, mapM_hexDigit?_eq_some_iff, ofDigits?_eq_none_iff]

theorem hex?_of_forall₂ {cs : List Char} {ds : List ℕ} (h : List.Forall₂ IsHexDigit cs ds) :
    hex? cs = ofDigits? ds := by
  rw [hex?, mapM_hexDigit?_eq_some_iff.mpr h, Option.bind_some]

theorem ofDigits?_doubled (r g b : ℕ) : ofDigits? [r, r, g, g, b, b] = ofDigits? [r, g, b] := by
  have hdouble (d : ℕ) : d * 16 + d = d * 17 := by omega
  simp only [ofDigits?, hdouble]

theorem forall₂_doubled {x y z : Char} {r g b : ℕ}
    (h : List.Forall₂ IsHexDigit [x, y, z] [r, g, b]) :
    List.Forall₂ IsHexDigit [x, x, y, y, z, z] [r, r, g, g, b, b] := by
  simp only [List.forall₂_cons, List.Forall₂.nil, and_true] at h ⊢
  exact ⟨h.1, h.1, h.2.1, h.2.1, h.2.2, h.2.2⟩

/-! ## 3. The notation -/

/-- The colour that a text without blanks at its ends spells. -/
inductive Spells : List Char → Color → Prop
  | eight {cs : List Char} {r r' g g' b b' a a' : ℕ}
      (h : List.Forall₂ IsHexDigit cs [r, r', g, g', b, b', a, a']) :
      Spells ('#' :: cs) (ofRgba ⟨.ofNat (r * 16 + r'), .ofNat (g * 16 + g'), .ofNat (b * 16 + b'),
        .ofNat (a * 16 + a')⟩)
  | six {cs : List Char} {r r' g g' b b' : ℕ}
      (h : List.Forall₂ IsHexDigit cs [r, r', g, g', b, b']) :
      Spells ('#' :: cs) (ofRgba ⟨.ofNat (r * 16 + r'), .ofNat (g * 16 + g'), .ofNat (b * 16 + b'),
        255⟩)
  /-- Three digits stand for six. -/
  | three {x y z : Char} {r g b : ℕ} {c : Color} (h : List.Forall₂ IsHexDigit [x, y, z] [r, g, b])
      (hc : Spells ['#', x, x, y, y, z, z] c) : Spells ['#', x, y, z] c
  /-- Everything else behind the sign is black. -/
  | black {cs : List Char}
      (h : ∀ ds, List.Forall₂ IsHexDigit cs ds → ds.length ∉ [3, 6, 8]) : Spells ('#' :: cs) .black
  | name {cs : List Char} {c : Color} (h : (Text.lower (String.ofList cs), c) ∈ palette) :
      Spells cs c

/-- What a text without blanks at its ends is read as. -/
def ofTrimmed? : List Char → Option Color
  | '#' :: digits => some ((hex? digits).getD black)
  | cs => named? (String.ofList cs)

theorem ofTrimmed?_of_head?_ne {cs : List Char} (h : cs.head? ≠ some '#') :
    ofTrimmed? cs = named? (String.ofList cs) := by
  rw [ofTrimmed?.eq_def]
  split
  · exact absurd rfl h
  · rfl

theorem parse?_eq (text : String) : parse? text = ofTrimmed? (Text.trimList text.toList) := by
  rfl

theorem named?_eq_some_iff {name : String} {c : Color} :
    named? name = some c ↔ (Text.lower name, c) ∈ palette := by
  rw [named?]
  generalize Text.lower name = key
  constructor
  · intro h
    obtain ⟨before, after, hpalette, -⟩ := List.lookup_eq_some_iff.mp h
    rw [hpalette]
    exact List.mem_append_right _ List.mem_cons_self
  · intro h
    simp only [palette, List.mem_cons, Prod.mk.injEq, List.not_mem_nil, or_false] at h
    -- no name stands in the palette twice
    rcases h with ⟨rfl, rfl⟩ | ⟨rfl, rfl⟩ | ⟨rfl, rfl⟩ | ⟨rfl, rfl⟩ | ⟨rfl, rfl⟩ | ⟨rfl, rfl⟩ |
      ⟨rfl, rfl⟩ | ⟨rfl, rfl⟩ <;> rfl

theorem spells_of_hex? {cs : List Char} {c : Color} (h : hex? cs = some c) :
    Spells ('#' :: cs) c := by
  obtain ⟨ds, hds, hc⟩ := hex?_eq_some_iff.mp h
  match ds, hc with
  | [r, g, b], hc =>
    obtain ⟨x, y, z, rfl⟩ := List.length_eq_three.mp hds.length_eq
    -- the colour of three digits is that of six
    rw [← ofDigits?_doubled] at hc
    obtain rfl := Option.some.inj hc
    exact .three hds (.six (forall₂_doubled hds))
  | [r, r', g, g', b, b'], hc =>
    obtain rfl := Option.some.inj hc
    exact .six hds
  | [r, r', g, g', b, b', a, a'], hc =>
    obtain rfl := Option.some.inj hc
    exact .eight hds

theorem spells_of_ofTrimmed? {cs : List Char} {c : Color} (h : ofTrimmed? cs = some c) :
    Spells cs c := by
  rw [ofTrimmed?.eq_def] at h
  split at h
  next digits =>
    obtain rfl := Option.some.inj h
    cases hhex : hex? digits with
    | some c => exact spells_of_hex? hhex
    | none => exact .black (hex?_eq_none_iff.mp hhex)
  next => exact .name (named?_eq_some_iff.mp h)

theorem head?_ne_of_mem_palette {cs : List Char} {c : Color}
    (h : (Text.lower (String.ofList cs), c) ∈ palette) : cs.head? ≠ some '#' := by
  have hnames : ∀ name ∈ palette.map Prod.fst, name.toList.head? ≠ some '#' := by decide
  have hcs := hnames _ (List.mem_map_of_mem h)
  rw [Text.lower, String.toList_map, String.toList_ofList, List.head?_map] at hcs
  intro hsign
  rw [hsign] at hcs
  exact hcs rfl

/-- No text spells two colours: what it spells is read. -/
theorem Spells.ofTrimmed? {cs : List Char} {c : Color} (h : Spells cs c) :
    ofTrimmed? cs = some c := by
  induction h with
  | eight h | six h => rw [Color.ofTrimmed?, hex?_of_forall₂ h]; rfl
  | three h hc ih =>
    rwa [Color.ofTrimmed?, hex?_of_forall₂ (forall₂_doubled h), ofDigits?_doubled,
      ← hex?_of_forall₂ h] at ih
  | black h => rw [Color.ofTrimmed?, hex?_eq_none_iff.mpr h, Option.getD_none]
  | name h =>
    rw [ofTrimmed?_of_head?_ne (head?_ne_of_mem_palette h)]
    exact named?_eq_some_iff.mpr h

theorem ofTrimmed?_eq_some_iff {cs : List Char} {c : Color} :
    ofTrimmed? cs = some c ↔ Spells cs c :=
  ⟨spells_of_ofTrimmed?, Spells.ofTrimmed?⟩

/-! ## 4. Case and blanks -/

theorem hex?_map_toLower (cs : List Char) : hex? (cs.map Char.toLower) = hex? cs := by
  rw [hex?, List.mapM_map, hex?]
  simp only [Function.comp_def, hexDigit?_toLower]

theorem named?_map_toLower (cs : List Char) :
    named? (String.ofList (cs.map Char.toLower)) = named? (String.ofList cs) := by
  rw [named?, named?]
  congr 1
  rw [← String.toList_inj]
  simp only [Text.lower, String.toList_map, String.toList_ofList, List.map_map, Function.comp_def,
    Text.toLower_toLower]

theorem ofTrimmed?_map_toLower (cs : List Char) :
    ofTrimmed? (cs.map Char.toLower) = ofTrimmed? cs := by
  by_cases hsign : cs.head? = some '#'
  · obtain ⟨digits, rfl⟩ := List.head?_eq_some_iff.mp hsign
    show some ((hex? (digits.map Char.toLower)).getD black) = _
    rw [hex?_map_toLower]
    rfl
  · have hsign' : (cs.map Char.toLower).head? ≠ some '#' := by
      rw [List.head?_map]
      intro h
      obtain ⟨c, hc, hlower⟩ := Option.map_eq_some_iff.mp h
      exact hsign (hc.trans (congrArg some (Text.eq_of_toLower_eq (by decide) hlower)))
    rw [ofTrimmed?_of_head?_ne hsign, ofTrimmed?_of_head?_ne hsign', named?_map_toLower]

theorem parse?_congr {text other : String} {before after : List Char}
    (hbefore : ∀ c ∈ before, Text.isBlank c) (hafter : ∀ c ∈ after, Text.isBlank c)
    (h : Text.lower other = Text.lower text) :
    parse? (String.ofList (before ++ other.toList ++ after)) = parse? text := by
  have hlist : other.toList.map Char.toLower = text.toList.map Char.toLower := by
    rw [← String.toList_map, ← String.toList_map]
    exact congrArg String.toList h
  rw [parse?_eq, parse?_eq, String.toList_ofList, Text.trimList_append hbefore hafter,
    ← ofTrimmed?_map_toLower, ← Text.trimList_map_toLower, hlist, Text.trimList_map_toLower,
    ofTrimmed?_map_toLower]

end ContentCard.Color
