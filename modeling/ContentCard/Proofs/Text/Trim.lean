import ContentCard.Text.Blank
import Mathlib.Data.List.TakeWhile

/-!
# Blanks at the ends and the case of letters

Trimming drops all blanks around a text.  Only ASCII letters have another case, none of them is a
blank, and so a text may be trimmed before or after its letters are put into lower case.
-/

namespace ContentCard.Text

/-! ## 1. Characters in lower case -/

theorem toNat_toLower (c : Char) :
    c.toLower.toNat = if 65 ≤ c.toNat ∧ c.toNat ≤ 90 then c.toNat + 32 else c.toNat := by
  unfold Char.toLower
  split
  next hupper =>
    have hlow : 65 ≤ c.toNat := hupper.1
    have hhigh : c.toNat ≤ 90 := hupper.2
    rw [if_pos ⟨hlow, hhigh⟩]
    show (c.val + 32).toNat = _
    rw [UInt32.toNat_add]
    show (c.toNat + 32) % 2 ^ 32 = _
    omega
  next hupper => rw [if_neg fun h => hupper ⟨h.1, h.2⟩]

/-- What is no lower-case letter comes from itself only. -/
theorem eq_of_toLower_eq {c d : Char} (hd : d.toNat < 97) (h : c.toLower = d) : c = d := by
  rw [← Char.toNat_inj, toNat_toLower] at h
  rw [← Char.toNat_inj]
  split at h <;> omega

theorem toLower_toLower (c : Char) : c.toLower.toLower = c.toLower := by
  rw [← Char.toNat_inj, toNat_toLower c.toLower, if_neg]
  rw [toNat_toLower]
  split <;> omega

theorem isBlank_toLower (c : Char) : isBlank c.toLower = isBlank c := by
  simp only [isBlank, toNat_toLower]
  split
  · rw [Bool.eq_iff_iff]
    simp only [Bool.or_eq_true, Bool.and_eq_true, decide_eq_true_eq, beq_iff_eq]
    omega
  · rfl

/-! ## 2. Trimming -/

theorem trimList_map_toLower (cs : List Char) :
    trimList (cs.map Char.toLower) = (trimList cs).map Char.toLower := by
  simp only [trimList, List.dropWhile_map, Function.comp_def, isBlank_toLower, ← List.map_reverse]

theorem trimList_append {before cs after : List Char} (hbefore : ∀ c ∈ before, isBlank c)
    (hafter : ∀ c ∈ after, isBlank c) : trimList (before ++ cs ++ after) = trimList cs := by
  rw [trimList, trimList, List.append_assoc, List.dropWhile_append_of_pos hbefore,
    List.dropWhile_append]
  -- the blanks behind the text are met from the front only if the text is blank itself
  split
  next hblank => rw [List.isEmpty_iff.mp hblank, List.dropWhile_eq_nil_iff.mpr hafter]
  next hblank =>
    have hafter' : ∀ c ∈ after.reverse, isBlank c := fun c hc => hafter c (List.mem_reverse.mp hc)
    rw [List.reverse_append, List.dropWhile_append_of_pos hafter']

end ContentCard.Text
