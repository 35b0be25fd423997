import ContentCard.Canvas.Operation
import ContentCard.Proofs.Canvas.Wash
import ContentCard.Proofs.Geometry.Intersection

/-!
# Nested clips

The clips of a canvas follow from the rectangles that were pushed and not taken back: each is cut
to the clip around it.  What is drawn changes pixels of the innermost clip only.
-/

namespace ContentCard

/-! ## 1. Clips and the rectangles they come from -/

namespace Canvas

/-- A rectangle in the clips around it, which stand innermost first. -/
def clipIn (clips : List Rect) (r : Rect) : Rect :=
  match clips with
  | [] => r
  | current :: _ => (current.intersection? r).getD ⟨r.x, r.y, 0, 0⟩

theorem pushClip_eq (c : Canvas) (r : Rect) :
    c.pushClip r = { c with clips := clipIn c.clips r :: c.clips } := by
  obtain ⟨picture, clips⟩ := c
  cases clips <;> rfl

/-- The clips of rectangles that are pushed from the last to the first. -/
def nested : List Rect → List Rect
  | [] => []
  | r :: rest => clipIn (nested rest) r :: nested rest

namespace Operation

/-- The rectangles that are open after an operation, innermost first. -/
def opened (rs : List Rect) : Operation → List Rect
  | .pushClip r => r :: rs
  | .popClip => rs.tail
  | _ => rs

/-- It draws under the clips; clearing does not heed them. -/
def IsDrawing : Operation → Prop
  | .clear _ | .pushClip _ | .popClip => False
  | _ => True

end Operation

/-- The rectangles that were pushed and not yet popped, innermost first. -/
def openRects (operations : List Operation) : List Rect := operations.foldl Operation.opened []

theorem isWash_perform {op : Operation} (h : op.IsDrawing) : IsWash (·.perform op) := by
  cases op with
  | clear | pushClip | popClip => exact h.elim
  | pixel x y color coverage => exact isWash_blendPixel x y color coverage
  | fill r radius color => exact isWash_fillRounded r radius color
  | stroke r radius width color => exact isWash_strokeRounded r radius width color
  | line a b width color => exact isWash_line a b width color
  | mask x y width coverage color => exact isWash_mask x y width coverage color
  | image picture dest => exact isWash_image picture dest

theorem clips_perform {c : Canvas} {rs : List Rect} (h : c.clips = nested rs) (op : Operation) :
    (c.perform op).clips = nested (op.opened rs) := by
  have hdrawn (hop : op.IsDrawing) : (c.perform op).clips = nested rs := by
    obtain ⟨w, hw⟩ := isWash_perform hop
    exact (congrArg clips (hw c)).trans h
  cases op with
  | clear => exact h
  | pushClip r =>
    show (c.pushClip r).clips = _
    rw [pushClip_eq, h]
    rfl
  | popClip =>
    show c.clips.tail = nested rs.tail
    rw [h]
    cases rs <;> rfl
  | pixel | fill | stroke | line | mask | image => exact hdrawn trivial

theorem clips_performAll {c : Canvas} {rs : List Rect} (h : c.clips = nested rs)
    (operations : List Operation) :
    (c.performAll operations).clips = nested (operations.foldl Operation.opened rs) := by
  induction operations generalizing c rs with
  | nil => exact h
  | cons op rest ih => exact ih (clips_perform h op)

end Canvas

/-! ## 2. The innermost clip -/

theorem Rect.across_and_down_admit {r : Rect} {p : Point} (h : r.admits p) :
    r.across.Admits p.x ∧ r.down.Admits p.y := by
  simp only [admits, Bool.not_eq_true', Bool.or_eq_false_iff, decide_eq_false_iff_not] at h
  exact ⟨⟨h.1.1.1, h.1.1.2⟩, h.1.2, h.2⟩

namespace Canvas

/-- A clip is closed, or it is cut out of all open rectangles. -/
def IsCut (clip : Rect) (rs : List Rect) : Prop :=
  (clip.across.IsClosed ∨ clip.down.IsClosed) ∨
    clip.across.IsMeet (rs.map Rect.across) ∧ clip.down.IsMeet (rs.map Rect.down)

theorem isCut_clipIn {clip r : Rect} {rs : List Rect} (h : IsCut clip rs)
    (hfinite : ∀ s ∈ r :: rs, s.IsFinite) (clips : List Rect) :
    IsCut (clipIn (clip :: clips) r) (r :: rs) := by
  have hr := hfinite r List.mem_cons_self
  cases ht : clip.intersection? r with
  | none =>
    rw [clipIn, ht]
    exact .inl (.inl (Interval.isClosed_zero hr.1.isNaN_start))
  | some t =>
    obtain ⟨hx, hy, hacross, hdown⟩ := Rect.intersection?_eq_some ht
    rw [clipIn, ht]
    obtain (hclosed | hclosed) | ⟨hmeetAcross, hmeetDown⟩ := h
    · exact absurd hx (hclosed.not_lt_cut hr.1)
    · exact absurd hy (hclosed.not_lt_cut hr.2)
    · refine .inr ⟨?_, ?_⟩
      · show t.across.IsMeet _
        rw [hacross]
        exact hmeetAcross.cut (List.forall_mem_map.mpr fun s hs => (hfinite s hs).1)
      · show t.down.IsMeet _
        rw [hdown]
        exact hmeetDown.cut (List.forall_mem_map.mpr fun s hs => (hfinite s hs).2)

theorem isCut_nested {r : Rect} {rs : List Rect} (hfinite : ∀ s ∈ r :: rs, s.IsFinite) :
    IsCut (clipIn (nested rs) r) (r :: rs) := by
  induction rs generalizing r with
  | nil =>
    have hr := hfinite r List.mem_cons_self
    exact .inr ⟨Interval.isMeet_singleton hr.1, Interval.isMeet_singleton hr.2⟩
  | cons s rest ih =>
    exact isCut_clipIn (ih fun t ht => hfinite t (List.mem_cons_of_mem r ht)) hfinite _

theorem isNaN_pixelCentre (x y : Nat) :
    (pixelCentre x y).x.isNaN = false ∧ (pixelCentre x y).y.isNaN = false := by
  have hhalf : (0.5 : Float32).isFinite := by decide +kernel
  exact ⟨Number.isNaN_add (Number.isNaN_ofNat x) hhalf,
    Number.isNaN_add (Number.isNaN_ofNat y) hhalf⟩

/-- A pixel that a drawing operation changes is in the innermost clip. -/
theorem admits_of_perform_ne {c : Canvas} {op : Operation} (hop : op.IsDrawing) {x y : Nat}
    (hne : (c.perform op).picture.pixel? x y ≠ c.picture.pixel? x y) : c.admits x y := by
  obtain ⟨w, hw⟩ := isWash_perform hop
  refine Decidable.byContradiction fun hout => hne ?_
  rw [show c.perform op = c.wash w from hw c, pixel?_wash]
  simp [hout]

/-- A pixel is changed by a drawing operation only if its centre lies behind the left and top edges
of every open rectangle.  It lies before the right and bottom edges as well if one rectangle is open
at most, or if all of them have whole numbers, or more generally if edges are kept. -/
theorem perform_changes_in_openRects {c : Canvas} (hclips : c.clips = [])
    (operations : List Operation) (hfinite : ∀ r ∈ openRects operations, r.IsFinite)
    {op : Operation} (hop : op.IsDrawing) {x y : Nat}
    (hne : ((c.performAll operations).perform op).picture.pixel? x y ≠
      (c.performAll operations).picture.pixel? x y) :
    (∀ r ∈ openRects operations, r.x ≤ (pixelCentre x y).x ∧ r.y ≤ (pixelCentre x y).y) ∧
      ((openRects operations).length ≤ 1 ∨ (∀ r ∈ openRects operations, r.IsWhole) ∨
          Rect.EdgesKept (openRects operations) →
        ∀ r ∈ openRects operations,
          (pixelCentre x y).x < r.right ∧ (pixelCentre x y).y < r.bottom) := by
  have hadmits := admits_of_perform_ne hop hne
  have hnested : (c.performAll operations).clips = nested (openRects operations) :=
    clips_performAll hclips operations
  rw [admits, hnested] at hadmits
  generalize openRects operations = rs at hfinite hadmits ⊢
  cases rs with
  | nil => exact ⟨nofun, fun _ => nofun⟩
  | cons r rest =>
    change (clipIn (nested rest) r).admits (pixelCentre x y) at hadmits
    obtain ⟨hx, hy⟩ := isNaN_pixelCentre x y
    obtain ⟨hacross, hdown⟩ := Rect.across_and_down_admit hadmits
    obtain (hclosed | hclosed) | ⟨hmeetAcross, hmeetDown⟩ := isCut_nested hfinite
    · exact absurd hacross (hclosed.not_admits hx)
    · exact absurd hdown (hclosed.not_admits hy)
    · obtain ⟨hleft, hright⟩ := hmeetAcross.of_admits
        (List.forall_mem_map.mpr fun s hs => (hfinite s hs).1) hx hacross
      obtain ⟨htop, hbottom⟩ := hmeetDown.of_admits
        (List.forall_mem_map.mpr fun s hs => (hfinite s hs).2) hy hdown
      simp only [List.forall_mem_map, List.length_map] at hleft hright htop hbottom
      refine ⟨fun s hs => ⟨hleft s hs, htop s hs⟩, fun hkept => ?_⟩
      have hedges : (r :: rest).length ≤ 1 ∨ Rect.EdgesKept (r :: rest) :=
        hkept.imp_right (Or.elim · Rect.edgesKept_of_isWhole id)
      exact fun s hs =>
        ⟨hright (hedges.imp_right (·.1)) s hs, hbottom (hedges.imp_right (·.2)) s hs⟩

/-- The common part of two rectangles with whole numbers. -/
theorem crossed_changes_in_openRects :
    let crossed : List Operation := [.pushClip ⟨0, 0, 5, 10⟩, .pushClip ⟨2, 2, 10, 10⟩]
    let fill : Operation := .fill ⟨0, 0, 10, 10⟩ 0 .black
    (blank 10 10).clips = [] ∧ (∀ r ∈ openRects crossed, r.IsFinite) ∧ fill.IsDrawing ∧
      (((blank 10 10).performAll crossed).perform fill).picture.pixel? 3 3 ≠
        ((blank 10 10).performAll crossed).picture.pixel? 3 3 ∧
      (∀ r ∈ openRects crossed, r.IsWhole) ∧
      ∀ r ∈ openRects crossed,
        (r.x ≤ (pixelCentre 3 3).x ∧ r.y ≤ (pixelCentre 3 3).y) ∧
          (pixelCentre 3 3).x < r.right ∧ (pixelCentre 3 3).y < r.bottom := by
  intro crossed fill
  have hfinite : ∀ r ∈ openRects crossed, r.IsFinite := by
    simp only [crossed, openRects, List.foldl, Operation.opened, List.forall_mem_cons]
    exact ⟨⟨⟨rfl, rfl⟩, rfl, rfl⟩, ⟨⟨rfl, rfl⟩, rfl, rfl⟩, nofun⟩
  have hne : (((blank 10 10).performAll crossed).perform fill).picture.pixel? 3 3 ≠
      ((blank 10 10).performAll crossed).picture.pixel? 3 3 := by decide +kernel
  have hwhole : ∀ r ∈ openRects crossed, r.IsWhole := by
    simp only [crossed, openRects, List.foldl, Operation.opened, List.forall_mem_cons]
    exact ⟨⟨⟨2, 10, by decide, by decide, rfl⟩, 2, 10, by decide, by decide, rfl⟩,
      ⟨⟨0, 5, by decide, by decide, rfl⟩, 0, 10, by decide, by decide, rfl⟩, nofun⟩
  have hdrawing : fill.IsDrawing := trivial
  obtain ⟨hstart, hstop⟩ := perform_changes_in_openRects rfl crossed hfinite hdrawing hne
  exact ⟨rfl, hfinite, hdrawing, hne, hwhole, fun r hr =>
    ⟨hstart r hr, hstop (.inr (.inl hwhole)) r hr⟩⟩

/-- Where an edge is not kept, a pixel outside of an open rectangle is changed. -/
theorem not_forall_changes_in_openRects :
    ¬ ∀ (c : Canvas) (operations : List Operation) (op : Operation) (x y : Nat), c.clips = [] →
      (∀ r ∈ openRects operations, r.IsFinite) → op.IsDrawing →
      ((c.performAll operations).perform op).picture.pixel? x y ≠
        (c.performAll operations).picture.pixel? x y →
      ∀ r ∈ openRects operations,
        (r.x ≤ (pixelCentre x y).x ∧ r.y ≤ (pixelCentre x y).y) ∧
          (pixelCentre x y).x < r.right ∧ (pixelCentre x y).y < r.bottom := by
  intro h
  have hright := (h (blank 1 1) [.pushClip ⟨-1, 0, 1.5, 1⟩, .pushClip ⟨-0.7, 0, 10, 1⟩]
    (.fill ⟨0, 0, 1, 1⟩ 0 .black) 0 0 rfl
    (by
      simp only [openRects, List.foldl, Operation.opened, List.forall_mem_cons]
      exact ⟨⟨⟨rfl, rfl⟩, rfl, rfl⟩, ⟨⟨rfl, rfl⟩, rfl, rfl⟩, nofun⟩)
    trivial (by decide +kernel) ⟨-1, 0, 1.5, 1⟩ (List.mem_cons_of_mem _ List.mem_cons_self)).2.1
  exact absurd hright (by decide +kernel)

end Canvas

end ContentCard
