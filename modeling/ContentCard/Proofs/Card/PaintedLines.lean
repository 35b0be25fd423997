import ContentCard.Proofs.Card.Correspondence
import ContentCard.Proofs.Card.TapReach
import ContentCard.Proofs.Text.Wrap

/-!
# The lines of a text, as measured and as painted

The layout breaks a text in the exact width of its box, with characters as wide as the
configuration says.  The painter, without a font, breaks it in the rounded width and half a pixel
more, with characters of the default width.  Both get the same lines exactly when the two break the
same numbers of characters.
-/

namespace ContentCard

namespace Visual

variable {s : Surroundings} {parent : Direction} {n : Node} {box : Box} {t : Lettering}

theorem lineLimit_of_ofNode_eq_text (h : ofNode s parent n = .text box t) : t.lineLimit = none := by
  rw [ofNode_of_text s parent (type_of_ofNode_eq s parent h)] at h
  obtain ⟨-, rfl⟩ := Visual.text.inj h
  rfl

/-- A text in a rendered tree may be broken into any number of lines. -/
theorem lineLimit_of_descend {path : List Nat}
    (h : descend Visual.children (ofNode s parent n) path = some (.text box t)) :
    t.lineLimit = none := by
  obtain ⟨_, _, hnode⟩ := exists_node_of_descend s parent h
  exact lineLimit_of_ofNode_eq_text hnode.symm

/-- The painter comes to every position of a tree. -/
theorem exists_visit_of_descend (origin exact : Point) {v w : Visual} {memo : Layout.Memo}
    {place : Placement} {path : List Nat} (hw : descend Visual.children v path = some w)
    (hp : descend Placement.children (Layout.placed origin exact v memo) path = some place) :
    ∃ u ∈ v.visits [] (Layout.placed origin exact v memo), u.visual = w ∧ u.place = place := by
  have hpath : path ∈ v.positions := (v.mem_positions_iff path).mpr (by rw [hw]; rfl)
  have hmem := List.mem_map_of_mem
    (f := fun path => (descend Visual.children v path,
      descend Placement.children (Layout.placed origin exact v memo) path)) hpath
  rw [← visits_placed [] origin exact v memo, hw, hp, List.mem_map] at hmem
  obtain ⟨u, hu, h⟩ := hmem
  exact ⟨u, hu, Option.some.inj (Prod.ext_iff.mp h).1, Option.some.inj (Prod.ext_iff.mp h).2⟩

end Visual

namespace Layout

/-- The width of a node's content before its frame is rounded. -/
def Memo.contentWidth (m : Memo) (box : Box) : Float32 :=
  (Rect.insetBy ⟨m.place.x, m.place.y, m.place.size.width, m.place.size.height⟩ box.insets).width

end Layout

/-- The estimate by which a configuration measures text. -/
def Config.estimate (c : Config) : Estimate := ⟨c.charWidthFactor, c.lineHeightExtra⟩

namespace Session

variable {Handler : Type}

/-- What the layout of a session's card remembers of the card's nodes. -/
def records (s : Session Handler) (images : ImageSource) (room : Available) : Layout.Memo :=
  (Layout.Item.ofVisual .column (s.card images room).tree).arranged room s.measure

/-- The painter comes to every text of a card, and the text's frame is that of the layout between
rounded edges.  The lines that are painted there without a font are those that were measured exactly
when, for no more characters than a paragraph has, a line breaks in the one width as in the
other. -/
theorem paintedLines_eq_iff (s : Session Handler) (hs : s.measure = s.config.measure)
    (images : ImageSource) (room : Available) {path : List Nat} {box : Box} {t : Lettering}
    (hleaf : descend Visual.children (s.card images room).tree path = some (.text box t)) :
    ∃ m, descend Layout.Memo.children (s.records images room) path = some m ∧
    ∃ w ∈ (s.card images room).visits, w.visual = .text box t ∧
      descend Placement.children (s.card images room).layout path = some w.place ∧
      (∃ left, w.place.frame.width = Layout.roundedLength left m.place.size.width) ∧
      w.place.content = w.place.frame.insetBy box.insets ∧
      (Paint.shownLines { images } t w.place.content =
          t.wrappedLines s.measure (some (m.contentWidth box)) ↔
        ∀ p ∈ Text.paragraphs t.content.toList, ∀ n ≤ p.length,
          Text.Breaks (PaintBox.blockEstimate.charWidth t.fontSize t.fontWeight)
              (w.place.content.width + Paint.spareWidth) n ↔
            Text.Breaks (s.config.estimate.charWidth t.fontSize t.fontWeight)
              (m.contentWidth box) n) := by
  have hrecords : (s.records images room).IsOf (s.card images room).tree :=
    Layout.isOf_arranged _ room s.measure
  obtain ⟨m, origin, exact, hm, hp⟩ := Layout.exists_placed_of_descend ⟨0, 0⟩ ⟨0, 0⟩ hrecords hleaf
  obtain ⟨w, hw, hvisual, hplace⟩ := Visual.exists_visit_of_descend _ _ hleaf hp
  have ht : t.lineLimit = none := Visual.lineLimit_of_descend hleaf
  refine ⟨m, hm, w, hw, hvisual, ?_, ?_, ?_, ?_⟩
  · rw [hplace]
    exact hp
  · rw [hplace]
    exact ⟨exact.x + m.place.x, rfl⟩
  · rw [hplace]
    rfl
  · rw [hs]
    exact t.wrappedLines_eq_iff ht PaintBox.blockEstimate s.config.estimate _ _

end Session

/-- A text of several lines. -/
def foxSession : Session Unit :=
  .new ⟨.ofMembers
    [("content", .string "The quick brown fox"),
      ("style", .object [("width", .number (.natural 100))]), ("type", .string "text")]⟩ {}

/-- Eleven characters stand in a line in both widths, so the lines are painted as they were
measured. -/
theorem foxSession_paintedLines :
    foxSession.measure = foxSession.config.measure ∧
      ∃ box t m, ∃ w ∈ (foxSession.card (fun _ => .pending) ⟨375, none⟩).visits,
        descend Visual.children (foxSession.card (fun _ => .pending) ⟨375, none⟩).tree [] =
          some (.text box t) ∧
        w.visual = .text box t ∧
        descend Layout.Memo.children (foxSession.records (fun _ => .pending) ⟨375, none⟩) [] =
          some m ∧
        Paint.shownLines { images := fun _ => .pending } t w.place.content =
          t.wrappedLines foxSession.measure (some (m.contentWidth box)) := by
  have hleaf : descend Visual.children
      (foxSession.card (fun _ => .pending) ⟨375, none⟩).tree [] = some (.text _ _) := rfl
  obtain ⟨m, hm, w, hw, hvisual, hplace, -, -, hlines⟩ :=
    foxSession.paintedLines_eq_iff rfl (fun _ => .pending) ⟨375, none⟩ hleaf
  refine ⟨rfl, _, _, m, w, hw, hleaf, hvisual, hm, hlines.mpr ?_⟩
  -- at the root the record and the placement are those of the whole card
  rw [← Option.some.inj hm, ← Option.some.inj hplace]
  decide +kernel

/-- A text beside a margin of half a pixel. -/
def offsetPayload : Json.Members :=
  [("content", .string "aaaaaaaaaaaa"), ("style", .object [("marginLeft", .number (.real 0.5))]),
    ("type", .string "text")]

/-- The frame of a text can lose more by rounding than half a pixel.  Its last character then goes
to a second line that was not measured. -/
theorem not_forall_painted_as_measured :
    ¬ ∀ (payload : Json.Members) (config : Config) (images : ImageSource) (room : Available)
      (path : List Nat) (box : Box) (t : Lettering) (m : Layout.Memo) (place : Placement),
      let s : Session Unit := .new ⟨.ofMembers payload⟩ config
      descend Visual.children (s.card images room).tree path = some (.text box t) →
      descend Layout.Memo.children (s.records images room) path = some m →
      descend Placement.children (s.card images room).layout path = some place →
      Paint.shownLines { images } t place.content =
        t.wrappedLines s.measure (some (m.contentWidth box)) := by
  intro h
  have hlines := h offsetPayload {} (fun _ => .pending) ⟨375, none⟩ [] _ _ _ _ rfl rfl rfl
  exact absurd hlines (by decide +kernel)

end ContentCard
