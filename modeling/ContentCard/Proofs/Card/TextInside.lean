import ContentCard.Proofs.Canvas.Wash
import ContentCard.Proofs.Card.TapReach

/-!
# Text stays in its content box

A painting leaves the clips as it found them.  Two cards that differ in their texts only are
painted alike, but for the pixels in the content boxes of the texts that differ.
-/

namespace ContentCard

/-! ## 1. Clips are taken back -/

/-- After the marks the clips are those that were there before. -/
def Mark.Balanced (marks : List Mark) : Prop :=
  ∀ e : Easel, (marks.foldl Easel.draw e).canvas.clips = e.canvas.clips

theorem Easel.clips_draw {m : Mark} (h : m.IsDrawn) (e : Easel) :
    (e.draw m).canvas.clips = e.canvas.clips := by
  obtain ⟨w, glyphs, hw⟩ := draw_eq_wash h e.glyphs
  show (draw ⟨e.canvas, e.glyphs⟩ m).canvas.clips = _
  rw [hw, Canvas.clips_wash]

namespace Mark

theorem balanced_nil : Balanced [] := fun _ => rfl

theorem Balanced.append {marks marks' : List Mark} (h : Balanced marks) (h' : Balanced marks') :
    Balanced (marks ++ marks') := fun e => by rw [List.foldl_append, h', h]

theorem Balanced.cons {m : Mark} (hm : m.IsDrawn) {marks : List Mark} (h : Balanced marks) :
    Balanced (m :: marks) := fun e => by rw [List.foldl_cons, h, e.clips_draw hm]

theorem balanced_of_isDrawn {marks : List Mark} (h : ∀ m ∈ marks, m.IsDrawn) : Balanced marks := by
  induction marks with
  | nil => exact balanced_nil
  | cons m rest ih =>
    obtain ⟨hm, hrest⟩ := List.forall_mem_cons.mp h
    exact (ih hrest).cons hm

/-- What is drawn between a clip and its end. -/
theorem Balanced.clip {marks : List Mark} (h : Balanced marks) (r : Rect) :
    Balanced (.clip r :: marks ++ [.unclip]) := fun e => by
  rw [List.cons_append, List.foldl_cons, List.foldl_append]
  show (marks.foldl Easel.draw (e.draw (.clip r))).canvas.clips.tail = _
  rw [h]
  rfl

theorem balanced_flatMap {α : Type} {xs : List α} {f : α → List Mark}
    (h : ∀ x ∈ xs, Balanced (f x)) : Balanced (xs.flatMap f) := by
  induction xs with
  | nil => exact balanced_nil
  | cons x rest ih =>
    obtain ⟨hx, hrest⟩ := List.forall_mem_cons.mp h
    rw [List.flatMap_cons]
    exact hx.append (ih hrest)

end Mark

namespace Paint

variable (p : PaintBox)

theorem exists_fill_of_mem_blockMarks {line : List Char} {left top : Float32} {t : Lettering}
    {color : Color} {m : Mark} (h : m ∈ blockMarks line left top t color) :
    ∃ r, m = .fill r 0 color := by
  obtain ⟨⟨c, i⟩, -, hm⟩ := List.mem_filterMap.mp h
  dsimp only at hm
  split at hm
  · cases hm
  · exact ⟨_, (Option.some.inj hm).symm⟩

theorem isDrawn_of_mem_lineMarks {line : String} {left top : Float32} {t : Lettering}
    {color : Color} {m : Mark} (h : m ∈ lineMarks p line left top t color) : m.IsDrawn := by
  rw [lineMarks] at h
  split at h
  · rw [List.mem_singleton.mp h]
    trivial
  · obtain ⟨r, rfl⟩ := exists_fill_of_mem_blockMarks h
    trivial

/-- The marks of a text are drawn in the clip of its box; without a font they are blocks. -/
theorem textMarks_eq (t : Lettering) (bounds : Rect) (centered : Bool) :
    ∃ marks, textMarks p t bounds centered = .clip bounds :: marks ++ [.unclip] ∧
      (∀ m ∈ marks, m.IsDrawn) ∧
      (p.font = none → ∀ m ∈ marks, ∃ r color, m = .fill r 0 color) := by
  refine ⟨_, rfl, fun m hm => ?_, fun hfont m hm => ?_⟩
  · obtain ⟨⟨line, i⟩, -, hm⟩ := List.mem_flatMap.mp hm
    exact isDrawn_of_mem_lineMarks p hm
  · obtain ⟨⟨line, i⟩, -, hm⟩ := List.mem_flatMap.mp hm
    dsimp only [lineMarks] at hm
    rw [hfont] at hm
    obtain ⟨r, hm⟩ := exists_fill_of_mem_blockMarks hm
    exact ⟨r, _, hm⟩

theorem balanced_textMarks (t : Lettering) (bounds : Rect) (centered : Bool) :
    Mark.Balanced (textMarks p t bounds centered) := by
  obtain ⟨marks, heq, hdrawn, -⟩ := textMarks_eq p t bounds centered
  rw [heq]
  exact (Mark.balanced_of_isDrawn hdrawn).clip bounds

theorem balanced_boxMarks (box : Box) (frame : Rect) : Mark.Balanced (boxMarks box frame) := by
  refine Mark.balanced_of_isDrawn fun m hm => ?_
  rw [boxMarks] at hm
  obtain hm | hm := List.mem_append.mp hm
  · split at hm
    · rw [List.mem_singleton.mp hm]
      trivial
    · cases hm
  · split at hm
    · rw [List.mem_singleton.mp hm]
      trivial
    · cases hm

theorem balanced_imageMarks (c : ImageContent) (bounds : Rect) :
    Mark.Balanced (imageMarks p c bounds) := by
  have hpicture (picture : Picture) : Mark.Balanced (pictureMarks picture c.scale bounds) := by
    rw [pictureMarks]
    have hdrawn (dest : Rect) : Mark.Balanced [.image picture dest] :=
      Mark.balanced_of_isDrawn (by simp [Mark.IsDrawn])
    split
    · exact (hdrawn _).clip bounds
    · exact hdrawn _
  have hlines (a b a' b' : Point) : Mark.Balanced [.line a b 1.5 imageSignColor,
      .line a' b' 1.5 imageSignColor] := Mark.balanced_of_isDrawn (by simp [Mark.IsDrawn])
  have hcross : Mark.Balanced (crossMarks bounds) := (hlines _ _ _ _).clip bounds
  have hdots : Mark.Balanced (dotMarks bounds) :=
    Mark.balanced_of_isDrawn (by simp [dotMarks, Mark.IsDrawn])
  rw [imageMarks]
  split
  · exact hpicture _
  · split
    · exact hcross.cons (m := .fill _ _ _) trivial
    · exact hdots.cons (m := .fill _ _ _) trivial

/-- What is painted at a node, its children and its text aside. -/
def plainMarks (w : Visit) : List Mark :=
  boxMarks w.visual.box w.place.frame ++
    match w.visual with
    | .image _ c => imageMarks p c w.place.content
    | .placeholder .. => [.stroke w.place.frame 2 1 noticeColor]
    | .container .. | .text .. | .button .. => []

/-- The text of a button stands in the middle. -/
def wordMarks (w : Visit) : List Mark :=
  match w.visual with
  | .text _ t => textMarks p t w.place.content false
  | .button _ b => textMarks p b.label w.place.content true
  | .placeholder _ n => textMarks p (noticeLettering n) w.place.content false
  | .container .. | .image .. => []

theorem ownMarks_eq (w : Visit) : ownMarks p w = plainMarks p w ++ wordMarks p w := by
  obtain ⟨v, place, around⟩ := w
  cases v <;> simp [ownMarks, plainMarks, wordMarks]

theorem balanced_plainMarks (w : Visit) : Mark.Balanced (plainMarks p w) := by
  refine (balanced_boxMarks _ _).append ?_
  split
  · exact balanced_imageMarks p _ _
  · exact Mark.balanced_of_isDrawn (by simp [Mark.IsDrawn])
  all_goals exact Mark.balanced_nil

theorem balanced_wordMarks (w : Visit) : Mark.Balanced (wordMarks p w) := by
  rw [wordMarks]
  split
  · exact balanced_textMarks p _ _ _
  · exact balanced_textMarks p _ _ _
  · exact balanced_textMarks p _ _ _
  all_goals exact Mark.balanced_nil

theorem balanced_ownMarks (w : Visit) : Mark.Balanced (ownMarks p w) := by
  rw [ownMarks_eq]
  exact (balanced_plainMarks p w).append (balanced_wordMarks p w)

end Paint

/-- A card's marks are those of its nodes, one after the other. -/
theorem Card.marks_eq (card : Card) (p : PaintBox) :
    card.marks p = card.visits.flatMap (Paint.ownMarks p) :=
  Paint.marks_eq_flatMap_visits p [] card.tree card.layout

theorem Card.balanced_marks (card : Card) (p : PaintBox) : Mark.Balanced (card.marks p) := by
  rw [marks_eq]
  exact Mark.balanced_flatMap fun w _ => Paint.balanced_ownMarks p w

/-! ## 2. Paintings that agree -/

namespace Easel

/-- Two paintings under the same clips that show the same, but for a set of pixels. -/
structure AgreeOff (region : Nat → Nat → Prop) (e e' : Easel) : Prop where
  clips : e.canvas.clips = e'.canvas.clips
  glyphs : e.glyphs = e'.glyphs
  pixel? : ∀ x y, ¬region x y → e.canvas.picture.pixel? x y = e'.canvas.picture.pixel? x y

namespace AgreeOff

variable {region : Nat → Nat → Prop} {e e' e'' : Easel}

theorem refl (e : Easel) : AgreeOff region e e := ⟨rfl, rfl, fun _ _ _ => rfl⟩

theorem symm (h : AgreeOff region e e') : AgreeOff region e' e :=
  ⟨h.clips.symm, h.glyphs.symm, fun x y hxy => (h.pixel? x y hxy).symm⟩

theorem trans (h : AgreeOff region e e') (h' : AgreeOff region e' e'') : AgreeOff region e e'' :=
  ⟨h.clips.trans h'.clips, h.glyphs.trans h'.glyphs,
    fun x y hxy => (h.pixel? x y hxy).trans (h'.pixel? x y hxy)⟩

theorem mono {region' : Nat → Nat → Prop} (h : AgreeOff region e e')
    (hr : ∀ x y, region x y → region' x y) : AgreeOff region' e e' :=
  ⟨h.clips, h.glyphs, fun x y hxy => h.pixel? x y (mt (hr x y) hxy)⟩

/-- The same mark does the same to both. -/
theorem draw (h : AgreeOff region e e') (m : Mark) : AgreeOff region (e.draw m) (e'.draw m) := by
  obtain ⟨⟨picture, clips⟩, glyphs⟩ := e
  obtain ⟨⟨picture', clips'⟩, glyphs'⟩ := e'
  obtain ⟨rfl, rfl, hpixel⟩ := h
  have hdrawn (hm : m.IsDrawn) : AgreeOff region (Easel.draw ⟨⟨picture, clips⟩, glyphs⟩ m)
      (Easel.draw ⟨⟨picture', clips⟩, glyphs⟩ m) := by
    obtain ⟨w, cache, hw⟩ := draw_eq_wash hm glyphs
    rw [hw, hw]
    refine ⟨rfl, rfl, fun x y hxy => ?_⟩
    rw [Canvas.pixel?_wash, Canvas.pixel?_wash, hpixel x y hxy]
    rfl
  cases m with
  | clip | unclip => exact ⟨rfl, rfl, hpixel⟩
  | fill | stroke | line | image | letters => exact hdrawn trivial

theorem foldl (h : AgreeOff region e e') (marks : List Mark) :
    AgreeOff region (marks.foldl Easel.draw e) (marks.foldl Easel.draw e') := by
  induction marks generalizing e e' with
  | nil => exact h
  | cons m rest ih => exact ih (h.draw m)

end AgreeOff

/-- Blocks change nothing outside of the clip. -/
theorem agreeOff_fills {e : Easel} {clip : Rect} (hclip : e.canvas.clips.head? = some clip)
    {marks : List Mark} (h : ∀ m ∈ marks, ∃ r color, m = .fill r 0 color) :
    AgreeOff (fun x y => clip.admits (pixelCentre x y)) e (marks.foldl draw e) := by
  induction marks generalizing e with
  | nil => exact .refl e
  | cons m rest ih =>
    obtain ⟨⟨r, color, rfl⟩, hrest⟩ := List.forall_mem_cons.mp h
    obtain ⟨w, hw⟩ := Canvas.isWash_fillRounded r 0 color
    have hdraw : e.draw (.fill r 0 color) = ⟨e.canvas.wash w, e.glyphs⟩ :=
      congrArg (Easel.mk · e.glyphs) (hw e.canvas)
    have hfirst : AgreeOff (fun x y => clip.admits (pixelCentre x y)) e
        (e.draw (.fill r 0 color)) := by
      rw [hdraw]
      refine ⟨rfl, rfl, fun x y hxy => ?_⟩
      have hadmits : e.canvas.admits x y = false := by
        rw [Canvas.admits, hclip]
        exact Bool.eq_false_iff.mpr hxy
      rw [Canvas.pixel?_wash, hadmits]
      simp
    exact hfirst.trans (ih (by rw [hdraw]; exact hclip) hrest)

/-- A text without a font changes nothing outside of its box. -/
theorem agreeOff_textMarks {e : Easel} (hclips : e.canvas.clips = []) (images : ImageSource)
    (t : Lettering) (bounds : Rect) (centered : Bool) :
    AgreeOff (fun x y => bounds.admits (pixelCentre x y)) e
      ((Paint.textMarks { images } t bounds centered).foldl draw e) := by
  obtain ⟨marks, heq, -, hfills⟩ := Paint.textMarks_eq { images } t bounds centered
  obtain ⟨⟨picture, clips⟩, glyphs⟩ := e
  cases hclips
  have h := agreeOff_fills (e := ⟨⟨picture, [bounds]⟩, glyphs⟩) rfl (hfills rfl)
  have hclips := (Paint.balanced_textMarks { images } t bounds centered) ⟨⟨picture, []⟩, glyphs⟩
  rw [heq] at hclips ⊢
  rw [List.cons_append, List.foldl_cons, List.foldl_append] at hclips ⊢
  -- the clip is taken back, and that changes no pixel
  exact ⟨hclips.symm, h.glyphs, h.pixel?⟩

end Easel

/-! ## 3. Visuals without words -/

def Lettering.wordless (t : Lettering) : Lettering :=
  { content := "", fontSize := 0, fontWeight := .regular, color := none, lineLimit := t.lineLimit }

/-- The box without the size of its content. -/
def Box.unmeasured (b : Box) : Box := { b with natural := .unknown }

namespace Visual

mutual

/-- The visual without its texts, their fonts and colours, and the sizes that were measured of
them. -/
def wordless : Visual → Visual
  | container box a children => container box a (wordlessAll children)
  | text box t => text box.unmeasured t.wordless
  | image box c => image box c
  | button box c => button box.unmeasured { c with label := c.label.wordless }
  | placeholder box n => placeholder box.unmeasured { n with message := "" }

def wordlessAll : List Visual → List Visual
  | [] => []
  | v :: rest => v.wordless :: wordlessAll rest

end

/-- The text of a leaf. -/
def lettering? : Visual → Option Lettering
  | text _ t => some t
  | button _ b => some b.label
  | placeholder _ n => some (Paint.noticeLettering n)
  | container .. | image .. => none

end Visual

def Visit.wordless (w : Visit) : Visit := { w with visual := w.visual.wordless }

namespace Visual

mutual

theorem visits_wordless (around : List Rect) (v : Visual) (place : Placement) :
    v.wordless.visits around place = (v.visits around place).map Visit.wordless := by
  obtain ⟨frame, content, places⟩ := place
  cases v with
  | container box a children =>
    rw [wordless, visits, visits, List.map_cons, Visit.wordless, wordless,
      visitsAll_wordlessAll (frame :: around) children places]
  | text | image | button | placeholder => rfl

theorem visitsAll_wordlessAll (around : List Rect) (vs : List Visual) (places : List Placement) :
    visitsAll around (wordlessAll vs) places =
      (visitsAll around vs places).map Visit.wordless := by
  match vs, places with
  | [], _ | _ :: _, [] => rfl
  | v :: vs, place :: places =>
    rw [wordlessAll, visitsAll, visitsAll, List.map_append, visits_wordless around v place,
      visitsAll_wordlessAll around vs places]

end

end Visual

namespace Paint

theorem plainMarks_wordless (p : PaintBox) (w : Visit) :
    plainMarks p w.wordless = plainMarks p w := by
  obtain ⟨v, place, around⟩ := w
  cases v <;> rfl

/-- Without its text a node is painted in the same way. -/
theorem plainMarks_congr (p : PaintBox) {w w' : Visit} (h : w.wordless = w'.wordless) :
    plainMarks p w = plainMarks p w' := by
  rw [← plainMarks_wordless, h, plainMarks_wordless]

theorem wordMarks_congr (p : PaintBox) {w w' : Visit} (h : w.wordless = w'.wordless)
    (ht : w.visual.lettering? = w'.visual.lettering?) : wordMarks p w = wordMarks p w' := by
  obtain ⟨v, place, around⟩ := w
  obtain ⟨v', place', around'⟩ := w'
  obtain ⟨hv, rfl, -⟩ := Visit.mk.inj h
  have ht : v.lettering? = v'.lettering? := ht
  -- visuals that are equal without words are of one kind
  cases v <;> cases v' <;> simp_all [Visual.wordless, Visual.lettering?, wordMarks]

end Paint

namespace Easel

theorem agreeOff_wordMarks {e : Easel} (hclips : e.canvas.clips = []) (images : ImageSource)
    (w : Visit) : AgreeOff (fun x y => w.place.content.admits (pixelCentre x y)) e
      ((Paint.wordMarks { images } w).foldl draw e) := by
  rw [Paint.wordMarks]
  split
  · exact agreeOff_textMarks hclips images _ _ _
  · exact agreeOff_textMarks hclips images _ _ _
  · exact agreeOff_textMarks hclips images _ _ _
  all_goals exact .refl e

variable {region : Nat → Nat → Prop} {e e' : Easel} (images : ImageSource)

/-- One node. -/
theorem AgreeOff.ownMarks (h : AgreeOff region e e') (hclips : e.canvas.clips = [])
    {w w' : Visit} (hw : w.wordless = w'.wordless)
    (hregion : w.visual.lettering? ≠ w'.visual.lettering? →
      ∀ x y, w.place.content.admits (pixelCentre x y) → region x y) :
    AgreeOff region ((Paint.ownMarks { images } w).foldl Easel.draw e)
      ((Paint.ownMarks { images } w').foldl Easel.draw e') := by
  rw [Paint.ownMarks_eq, Paint.ownMarks_eq, List.foldl_append, List.foldl_append,
    ← Paint.plainMarks_congr _ hw]
  have hplain := h.foldl (Paint.plainMarks { images } w)
  have hclips₁ := (Paint.balanced_plainMarks { images } w e).trans hclips
  by_cases ht : w.visual.lettering? = w'.visual.lettering?
  · rw [← Paint.wordMarks_congr _ hw ht]
    exact hplain.foldl _
  · have hplace : w'.place = w.place := (congrArg Visit.place hw).symm
    have hword := agreeOff_wordMarks hclips₁ images w
    have hword' := agreeOff_wordMarks (hplain.clips.symm.trans hclips₁) images w'
    rw [hplace] at hword'
    exact (hword.mono (hregion ht)).symm.trans (hplain.trans (hword'.mono (hregion ht)))

/-- All nodes. -/
theorem AgreeOff.visits (h : AgreeOff region e e') (hclips : e.canvas.clips = [])
    {ws ws' : List Visit} (hws : ws.map Visit.wordless = ws'.map Visit.wordless)
    (hregion : ∀ q ∈ ws.zip ws', q.1.visual.lettering? ≠ q.2.visual.lettering? →
      ∀ x y, q.1.place.content.admits (pixelCentre x y) → region x y) :
    AgreeOff region ((ws.flatMap (Paint.ownMarks { images })).foldl Easel.draw e)
      ((ws'.flatMap (Paint.ownMarks { images })).foldl Easel.draw e') := by
  induction ws generalizing ws' e e' with
  | nil =>
    obtain rfl := List.map_eq_nil_iff.mp hws.symm
    exact h
  | cons w rest ih =>
    obtain ⟨w', rest', rfl, hw, hrest⟩ := List.map_eq_cons_iff.mp hws.symm
    rw [List.zip_cons_cons, List.forall_mem_cons] at hregion
    rw [List.flatMap_cons, List.flatMap_cons, List.foldl_append, List.foldl_append]
    refine ih (h.ownMarks images hclips hw.symm hregion.1) ?_ hrest.symm hregion.2
    exact (Paint.balanced_ownMarks { images } w e).trans hclips

end Easel

/-- A painting leaves the clips as they were.  Where no clips are set, cards with one layout that
differ in their texts only are painted alike without a font, but for the pixels with their centres
in the content boxes of the texts that differ. -/
theorem Card.paint_agree_off_texts (card card' : Card) (images : ImageSource) (canvas : Canvas) :
    (∀ p, (card.paint p canvas).clips = canvas.clips) ∧
      (card.layout = card'.layout → card.tree.wordless = card'.tree.wordless →
        canvas.clips = [] → ∀ x y,
          (∀ q ∈ card.visits.zip card'.visits,
            q.1.visual.lettering? ≠ q.2.visual.lettering? →
              ¬q.1.place.content.admits (pixelCentre x y)) →
          (card.paint { images } canvas).picture.pixel? x y =
            (card'.paint { images } canvas).picture.pixel? x y) := by
  refine ⟨fun p => card.balanced_marks p ⟨canvas, []⟩, fun hlayout htree hclips x y hout => ?_⟩
  have hvisits : card.visits.map Visit.wordless = card'.visits.map Visit.wordless := by
    rw [visits, visits, ← Visual.visits_wordless, ← Visual.visits_wordless, htree, hlayout]
  let region (x y : Nat) : Prop := ∃ q ∈ card.visits.zip card'.visits,
    q.1.visual.lettering? ≠ q.2.visual.lettering? ∧ q.1.place.content.admits (pixelCentre x y)
  have h : Easel.AgreeOff region ((card.marks { images }).foldl Easel.draw ⟨canvas, []⟩)
      ((card'.marks { images }).foldl Easel.draw ⟨canvas, []⟩) := by
    rw [marks_eq, marks_eq]
    exact (Easel.AgreeOff.refl _).visits images hclips hvisits
      fun q hq ht x y hin => ⟨q, hq, ht, hin⟩
  exact h.pixel? x y fun ⟨q, hq, ht, hin⟩ => hout q hq ht hin

/-- Two lines of text, one below the other. -/
def twoTexts (first : String) : Card where
  tree :=
    let text (content : String) : Visual :=
      .text (.plain .unknown) ⟨content, 14, .regular, none, none⟩
    .container (.plain .unknown) ⟨.column, .start, .start⟩ [text first, text "more"]
  layout :=
    let line (y : Float32) : Placement := ⟨⟨0, y, 60, 18⟩, ⟨0, y, 60, 18⟩, []⟩
    ⟨⟨0, 0, 60, 36⟩, ⟨0, 0, 60, 36⟩, [line 0, line 18]⟩

/-- The second line is painted alike whatever the first one says. -/
theorem twoTexts_paint_agree :
    (twoTexts "a").layout = (twoTexts "bcd").layout ∧
      (twoTexts "a").tree.wordless = (twoTexts "bcd").tree.wordless ∧
      ((twoTexts "a").paint ⟨none, fun _ => .pending⟩ (.blank 60 36)).picture.pixel? 5 20 =
        ((twoTexts "bcd").paint ⟨none, fun _ => .pending⟩ (.blank 60 36)).picture.pixel? 5 20 := by
  have hbelow : ¬Rect.admits ⟨0, 0, 60, 18⟩ (pixelCentre 5 20) := by decide +kernel
  refine ⟨rfl, rfl, ((twoTexts "a").paint_agree_off_texts (twoTexts "bcd") (fun _ => .pending)
    (.blank 60 36)).2 rfl rfl rfl 5 20 ?_⟩
  show ∀ q ∈ [_, _, _], _
  simp only [List.forall_mem_cons]
  exact ⟨fun h => absurd rfl h, fun _ => hbelow, fun h => absurd rfl h, nofun⟩

end ContentCard
