import ContentCard.Color.Offsets
import ContentCard.Proofs.Color.Notation
import Mathlib.Data.String.Basic

/-!
# Colours at byte offsets

Nothing is cut out of a text before all its characters are known to be hexadecimal digits.  A digit
is one byte long, so the offsets of bytes are those of digits, each of them stands between two
digits, and no sign is left that a number could start with.
-/

namespace ContentCard

/-! ## 1. Cutting -/

namespace Text

/-- Two offsets behind whole characters. -/
theorem cut_ofList (before middle after : List Char) :
    cut (String.ofList (before ++ middle ++ after)) (String.utf8Len before)
      (String.utf8Len before + String.utf8Len middle) = .ok (String.ofList middle) := by
  have hvalid (front back : List Char) :
      String.Pos.Raw.IsValid (String.ofList (front ++ back)) ⟨String.utf8Len front⟩ := by
    refine String.Pos.Raw.isValid_ofList.mpr ⟨front.length, ?_⟩
    rw [List.take_left, String.utf8ByteSize_ofList]
  have hstop := hvalid (before ++ middle) after
  rw [String.utf8Len_append] at hstop
  have hstart := hvalid before (middle ++ after)
  rw [← List.append_assoc] at hstart
  rw [cut, if_pos ⟨Nat.le_add_right _ _, hstart, hstop⟩, String.extract_of_valid]

end Text

namespace Color

/-! ## 2. Digits and their bytes -/

theorem IsHexDigit.utf8Size {c : Char} {d : ℕ} (h : IsHexDigit c d) : c.utf8Size = 1 := by
  have hdigit := hexDigit?_eq_some_iff.mpr h
  rw [hexDigit?_eq] at hdigit
  rw [Char.utf8Size_eq_one_iff, UInt32.le_iff_toNat_le]
  show c.toNat ≤ 127
  split_ifs at hdigit <;> omega

theorem forall_isHexDigit_iff {cs : List Char} :
    (∀ c ∈ cs, c.isHexDigit) ↔ ∃ ds, List.Forall₂ IsHexDigit cs ds := by
  induction cs with
  | nil => simp
  | cons c cs ih =>
    rw [List.forall_mem_cons, ih, isHexDigit_iff]
    constructor
    · rintro ⟨⟨d, hd⟩, ds, hds⟩
      exact ⟨d :: ds, .cons hd hds⟩
    · rintro ⟨_, h⟩
      cases h with
      | cons hd hds => exact ⟨⟨_, hd⟩, _, hds⟩

section

variable {cs : List Char} {ds : List ℕ} (h : List.Forall₂ IsHexDigit cs ds)

include h

theorem utf8Len_eq_length : String.utf8Len cs = ds.length := by
  induction h with
  | nil => rfl
  | cons hd _ ih =>
    rw [String.utf8Len_cons, ih, hd.utf8Size, List.length_cons]

theorem readByte_ofList (hne : cs ≠ []) (hsmall : hexValue ds < 256) :
    readByte (String.ofList cs) = some (.ofNat (hexValue ds)) := by
  -- a plus sign is no digit
  have hplus : withoutPlus cs = cs := by
    rw [withoutPlus.eq_def]
    split
    next =>
      obtain ⟨d, _, hd, -⟩ := List.forall₂_cons_left_iff.mp h
      cases hexDigit?_eq_some_iff.mpr hd
    · rfl
  rw [readByte, String.toList_ofList, hplus, if_neg hne, mapM_hexDigit?_eq_some_iff.mpr h]
  exact if_pos hsmall

/-! ## 3. Digits at offsets -/

theorem byteAt_ofList {i n : ℕ} (hn : 0 < n) (hend : i + n ≤ ds.length)
    (hsmall : hexValue ((ds.drop i).take n) < 256) :
    byteAt (String.ofList cs) i (i + n) = pure (.ofNat (hexValue ((ds.drop i).take n))) := by
  have hbefore := List.forall₂_take i h
  have hmiddle := List.forall₂_take n (List.forall₂_drop i h)
  have hparts : cs.take i ++ (cs.drop i).take n ++ (cs.drop i).drop n = cs := by
    rw [List.append_assoc, List.take_append_drop, List.take_append_drop]
  have hcut := Text.cut_ofList (cs.take i) ((cs.drop i).take n) ((cs.drop i).drop n)
  have hi : (ds.take i).length = i := by
    rw [List.length_take]
    omega
  have hlength : ((ds.drop i).take n).length = n := by
    rw [List.length_take, List.length_drop]
    omega
  have hne : (cs.drop i).take n ≠ [] := by
    rw [← List.length_pos_iff, hmiddle.length_eq, hlength]
    exact hn
  rw [hparts, utf8Len_eq_length hbefore, utf8Len_eq_length hmiddle, hi, hlength] at hcut
  rw [byteAt, hcut]
  exact congrArg (OptionT.mk ∘ Except.ok) (readByte_ofList hmiddle hne hsmall)

theorem lt_of_forall₂_isHexDigit {i : ℕ} (hi : i < ds.length) : ds[i] < 16 :=
  have hlength := h.length_eq
  (List.Forall₂.get h (hlength ▸ hi) hi).1

theorem byteAt_one {i : ℕ} (hi : i < ds.length) :
    byteAt (String.ofList cs) i (i + 1) = pure (.ofNat ds[i]) := by
  have hdigit : (ds.drop i).take 1 = [ds[i]] := by
    rw [List.drop_eq_getElem_cons hi]
    rfl
  have hvalue : hexValue [ds[i]] = ds[i] := by simp [hexValue]
  have hd := lt_of_forall₂_isHexDigit h hi
  rw [byteAt_ofList h Nat.one_pos hi (by rw [hdigit, hvalue]; omega), hdigit, hvalue]

theorem byteAt_two {i : ℕ} (hi : i + 1 < ds.length) :
    byteAt (String.ofList cs) i (i + 2) = pure (.ofNat (ds[i] * 16 + ds[i + 1])) := by
  have hdigits : (ds.drop i).take 2 = [ds[i], ds[i + 1]] := by
    rw [List.drop_eq_getElem_cons (Nat.lt_of_succ_lt hi), List.drop_eq_getElem_cons hi]
    rfl
  have hvalue : hexValue [ds[i], ds[i + 1]] = ds[i] * 16 + ds[i + 1] := by simp [hexValue]
  have hd := lt_of_forall₂_isHexDigit h (Nat.lt_of_succ_lt hi)
  have hd' := lt_of_forall₂_isHexDigit h hi
  rw [byteAt_ofList h Nat.two_pos hi (by rw [hdigits, hvalue]; omega), hdigits, hvalue]

theorem run_colorAt : (colorAt (String.ofList cs)).run = .ok (ofDigits? ds) := by
  rw [colorAt, String.utf8ByteSize_ofList, utf8Len_eq_length h]
  cases hc : ofDigits? ds with
  | none =>
    have hlength := ofDigits?_eq_none_iff.mp hc
    simp only [List.mem_cons, List.not_mem_nil, or_false, not_or] at hlength
    obtain ⟨h3, h6, h8⟩ := hlength
    split
    · exact absurd ‹_› h3
    · exact absurd ‹_› h6
    · exact absurd ‹_› h8
    · rfl
  | some c =>
    rw [← hc]
    match ds, hc with
    | [r, g, b], _ =>
      have h0 : byteAt (String.ofList cs) 0 1 = _ := byteAt_one h (by simp)
      have h1 : byteAt (String.ofList cs) 1 2 = _ := byteAt_one h (by simp)
      have h2 : byteAt (String.ofList cs) 2 3 = _ := byteAt_one h (by simp)
      -- here the product is one of bytes
      simp only [List.length_cons, List.length_nil, h0, h1, h2, pure_bind, ofDigits?,
        UInt8.ofNat_mul]
      rfl
    | [r, r', g, g', b, b'], _ =>
      have h0 : byteAt (String.ofList cs) 0 2 = _ := byteAt_two h (by simp)
      have h2 : byteAt (String.ofList cs) 2 4 = _ := byteAt_two h (by simp)
      have h4 : byteAt (String.ofList cs) 4 6 = _ := byteAt_two h (by simp)
      simp only [List.length_cons, List.length_nil, h0, h2, h4, pure_bind]
      rfl
    | [r, r', g, g', b, b', a, a'], _ =>
      have h0 : byteAt (String.ofList cs) 0 2 = _ := byteAt_two h (by simp)
      have h2 : byteAt (String.ofList cs) 2 4 = _ := byteAt_two h (by simp)
      have h4 : byteAt (String.ofList cs) 4 6 = _ := byteAt_two h (by simp)
      have h6 : byteAt (String.ofList cs) 6 8 = _ := byteAt_two h (by simp)
      simp only [List.length_cons, List.length_nil, h0, h2, h4, h6, pure_bind]
      rfl

end

/-- Behind the guard every offset is one of a digit. -/
theorem run_hexAtOffsets (cs : List Char) :
    (hexAtOffsets (String.ofList cs)).run = .ok (hex? cs) := by
  rw [hexAtOffsets, String.toList_ofList]
  by_cases hdigits : ∀ c ∈ cs, c.isHexDigit
  · obtain ⟨ds, hds⟩ := forall_isHexDigit_iff.mp hdigits
    rw [if_pos (List.all_eq_true.mpr hdigits), hex?_of_forall₂ hds]
    exact run_colorAt hds
  · have hall : ¬(cs.all Char.isHexDigit = true) := fun h => hdigits (List.all_eq_true.mp h)
    have hnone : hex? cs = none :=
      hex?_eq_none_iff.mpr fun ds hds => absurd (forall_isHexDigit_iff.mpr ⟨ds, hds⟩) hdigits
    rw [if_neg hall, hnone]
    rfl

/-! ## 4. Texts -/

theorem parseAtOffsets_eq (text : String) : parseAtOffsets text = .ok (parse? text) := by
  rw [parseAtOffsets.eq_def, parse?_eq]
  generalize Text.trimList text.toList = cs
  split
  next digits =>
    rw [run_hexAtOffsets]
    rfl
  next hsign =>
    rw [ofTrimmed?_of_head?_ne]
    intro h
    obtain ⟨digits, hdigits⟩ := List.head?_eq_some_iff.mp h
    exact hsign digits hdigits

theorem isSome_parse?_iff {text : String} : (parse? text).isSome ↔
    (Text.trimList text.toList).head? = some '#' ∨ Text.lower (Text.trim text) ∈
      ["red", "blue", "green", "yellow", "gray", "grey", "black", "white"] := by
  rw [parse?_eq, Text.trim]
  generalize Text.trimList text.toList = cs
  constructor
  · intro h
    obtain ⟨c, hc⟩ := Option.isSome_iff_exists.mp h
    cases spells_of_ofTrimmed? hc with
    | name hname => exact .inr (List.mem_map_of_mem (f := Prod.fst) hname)
    | _ => exact .inl rfl
  · rintro (hsign | hname)
    · obtain ⟨digits, rfl⟩ := List.head?_eq_some_iff.mp hsign
      rfl
    · replace hname : Text.lower (String.ofList cs) ∈ palette.map Prod.fst := hname
      obtain ⟨entry, hentry, hkey⟩ := List.mem_map.mp hname
      have hspells : Spells cs entry.2 := .name (hkey ▸ hentry)
      rw [hspells.ofTrimmed?]
      rfl

/-- A text is read as the colour it spells, whatever the case of its letters and the blanks around
it, and no offset at which it is cut is outside it or inside a character. -/
theorem parse?_notation (text : String) :
    (∀ c, parse? text = some c ↔ Spells (Text.trimList text.toList) c) ∧
      ((parse? text).isSome ↔ (Text.trimList text.toList).head? = some '#' ∨
        Text.lower (Text.trim text) ∈
          ["red", "blue", "green", "yellow", "gray", "grey", "black", "white"]) ∧
      (∀ (other : String) (before after : List Char),
        (∀ c ∈ before, Text.isBlank c) → (∀ c ∈ after, Text.isBlank c) →
          Text.lower other = Text.lower text →
            parse? (String.ofList (before ++ other.toList ++ after)) = parse? text) ∧
      parseAtOffsets text = .ok (parse? text) :=
  ⟨fun _ => ofTrimmed?_eq_some_iff, isSome_parse?_iff,
    fun _ _ _ hbefore hafter h => parse?_congr hbefore hafter h, parseAtOffsets_eq text⟩

theorem parse?_notation_red :
    parse? (String.ofList (['\u3000'] ++ "#F00".toList ++ ['\n'])) =
        some (ofRgba ⟨255, 0, 0, 255⟩) ∧
      parseAtOffsets "#f00" = .ok (some (ofRgba ⟨255, 0, 0, 255⟩)) := by
  obtain ⟨hspells, -, hcongr, hoffsets⟩ := parse?_notation "#f00"
  have htrim : Text.trimList "#f00".toList = ['#', 'f', '0', '0'] := by decide
  have hdigits : List.Forall₂ IsHexDigit ['f', '0', '0'] [15, 0, 0] := by
    simp only [List.forall₂_cons, List.Forall₂.nil]
    decide
  have hred : parse? "#f00" = some (ofRgba ⟨255, 0, 0, 255⟩) := by
    rw [hspells, htrim]
    have hspelled := Spells.three hdigits (.six (forall₂_doubled hdigits))
    exact hspelled
  have hlower : Text.lower "#F00" = Text.lower "#f00" := by
    rw [← String.toList_inj]
    simp [Text.lower]
  have hagain := hcongr "#F00" ['\u3000'] ['\n'] (by simp [Text.isBlank])
    (by simp [Text.isBlank]) hlower
  exact ⟨hagain.trans hred, hoffsets.trans (congrArg Except.ok hred)⟩

end Color

end ContentCard
