import ContentCard.Card.Paint
import ContentCard.Proofs.Visual.Children
import Mathlib.Data.List.TakeWhile

/-!
# Leaves of one line

A button shows one line of its label, and a placeholder one line of its message: the first one, with
an ellipsis if more follow.  A button is as large as that line.  A placeholder is as large as its
whole message, which is the line that it shows unless the name of its type has a line feed.
-/

namespace ContentCard

/-! ## 1. Lines -/

namespace Text

/-- The first line of a text, with an ellipsis if more follow. -/
def oneLine (text : String) : String :=
  .ofList (text.toList.takeWhile (· ≠ '\n') ++ if '\n' ∈ text.toList then ['…'] else [])

theorem exists_paragraphs_eq (text : List Char) : ∃ rest,
    paragraphs text = text.takeWhile (· ≠ '\n') :: rest ∧ (rest = [] ↔ '\n' ∉ text) := by
  induction text with
  | nil => exact ⟨[], rfl, by simp⟩
  | cons c text ih =>
    obtain ⟨rest, hrest, hfeed⟩ := ih
    rw [paragraphs]
    split
    next hc => exact ⟨paragraphs text, by simp [hc], by simp [hc, hrest]⟩
    next hc =>
      rw [hrest]
      exact ⟨rest, by simp [hc], by simp [hfeed, Ne.symm hc]⟩

theorem limitLines_one (text : String) :
    (limitLines (some 1) (paragraphs text.toList)).map String.ofList = [oneLine text] := by
  obtain ⟨rest, hrest, hfeed⟩ := exists_paragraphs_eq text.toList
  rw [limitLines, oneLine, hrest]
  cases rest with
  | nil => simp [hfeed.mp rfl]
  | cons p ps =>
    have hmem : '\n' ∈ text.toList := by simpa using mt hfeed.mpr (List.cons_ne_nil p ps)
    simp [hmem]

theorem not_mem_oneLine (text : String) : '\n' ∉ (oneLine text).toList := by
  rw [oneLine, String.toList_ofList, List.mem_append, not_or]
  refine ⟨fun h => by simpa using List.mem_takeWhile_imp h, ?_⟩
  split <;> decide

theorem oneLine_eq_self_iff {text : String} : oneLine text = text ↔ '\n' ∉ text.toList := by
  constructor
  · intro h
    rw [← h]
    exact not_mem_oneLine text
  · intro h
    have hline : text.toList.takeWhile (· ≠ '\n') = text.toList :=
      List.takeWhile_eq_self_iff.mpr fun c hc => decide_eq_true fun hfeed => h (hfeed ▸ hc)
    rw [oneLine, hline, if_neg h, List.append_nil, String.ofList_toList]

end Text

theorem mem_noticeMessage_iff (typeName : String) :
    '\n' ∈ (noticeMessage typeName).toList ↔ '\n' ∈ typeName.toList := by
  rw [noticeMessage]
  split
  next hempty =>
    rw [hempty]
    decide
  next =>
    have hprefix : '\n' ∉ "Unsupported component: ".toList := by decide
    rw [String.toList_append, List.mem_append, or_iff_right hprefix]

/-! ## 2. Painting -/

namespace Lettering

variable {t : Lettering}

theorem shownLines_of_lineLimit (h : t.lineLimit = some 1) :
    t.shownLines = [Text.oneLine t.content] := by
  rw [shownLines, h]
  exact Text.limitLines_one t.content

theorem wrappedLines_of_lineLimit (h : t.lineLimit = some 1) (measure : Measurer)
    (limit : Option Float32) : t.wrappedLines measure limit = [Text.oneLine t.content] := by
  rw [wrappedLines, h]
  exact shownLines_of_lineLimit h

end Lettering

namespace Paint

/-- The marks show one line and nothing else, wherever it stands in its box. -/
def ShowsLine (p : PaintBox) (t : Lettering) (line : String) (bounds : Rect) (ms : List Mark) :
    Prop :=
  ∃ left top, ms = .clip bounds :: lineMarks p line left top t (t.color.getD .black) ++ [.unclip]

theorem showsLine_of_lineLimit (p : PaintBox) {t : Lettering} (h : t.lineLimit = some 1)
    (bounds : Rect) (centered : Bool) :
    ShowsLine p t (Text.oneLine t.content) bounds (textMarks p t bounds centered) := by
  rw [textMarks, shownLines, t.wrappedLines_of_lineLimit h]
  exact ⟨_, _, by rw [List.zipIdx_singleton, List.flatMap_singleton]⟩

end Paint

/-! ## 3. Measuring -/

namespace Visual

variable {s : Surroundings} {parent : Direction} {node : Node} {box : Box}

/-- A button's label is limited to one line, and the button is as large as that line. -/
theorem label_of_ofNode_eq_button {b : ButtonContent} (h : ofNode s parent node = .button box b) :
    b.label.lineLimit = some 1 ∧ box.natural =
      .ofSize (s.measure (Text.oneLine b.label.content) b.label.fontSize b.label.fontWeight) := by
  rw [ofNode_of_button s parent (type_of_ofNode_eq s parent h)] at h
  obtain ⟨hbox, rfl⟩ := Visual.button.inj h
  refine ⟨rfl, ?_⟩
  have hjoin (line : String) : String.join [line] = line := by simp
  rw [← hbox, Style.box, Lettering.shownLines_of_lineLimit rfl, hjoin]

/-- A placeholder is as large as its message. -/
theorem notice_of_ofNode_eq_placeholder {n : Notice}
    (h : ofNode s parent node = .placeholder box n) :
    n.message = noticeMessage n.typeName ∧
      box.natural = .ofSize (s.measure n.message noticeFontSize .regular) := by
  rw [ofNode_of_unknown s parent (type_of_ofNode_eq s parent h)] at h
  obtain ⟨hbox, hnotice⟩ := Visual.placeholder.inj h
  constructor
  · rw [← hnotice]
  · rw [← hbox, ← hnotice]
    rfl

end Visual

/-! ## 4. Cards -/

/-- Wherever the buttons and placeholders of a tree are placed, each shows one line and nothing else
but its box.  The size of a button is that of the line, the size of a placeholder that of its
message, of which the line is the whole unless the name of the type has a line feed. -/
theorem Template.paints_oneLine (t : Template) (s : Surroundings) (p : PaintBox) (path : List Nat)
    (box : Box) :
    (∀ b, descend Visual.children (t.render s) path = some (.button box b) →
      let line := Text.oneLine b.label.content
      '\n' ∉ line.toList ∧
        box.natural = .ofSize (s.measure line b.label.fontSize b.label.fontWeight) ∧
        ∀ place, ∃ ms, Paint.ShowsLine p b.label line place.content ms ∧
          Paint.marks p (.button box b) place = Paint.boxMarks box place.frame ++ ms) ∧
    ∀ n, descend Visual.children (t.render s) path = some (.placeholder box n) →
      let line := Text.oneLine n.message
      '\n' ∉ line.toList ∧
        box.natural = .ofSize (s.measure n.message noticeFontSize .regular) ∧
        (line = n.message ↔ '\n' ∉ n.typeName.toList) ∧
        ∀ place, ∃ ms, Paint.ShowsLine p (Paint.noticeLettering n) line place.content ms ∧
          Paint.marks p (.placeholder box n) place =
            Paint.boxMarks box place.frame ++ .stroke place.frame 2 1 Paint.noticeColor :: ms := by
  constructor
  · intro b h line
    obtain ⟨parent, node, hnode⟩ := Visual.exists_node_of_descend s .column h
    obtain ⟨hlimit, hnatural⟩ := Visual.label_of_ofNode_eq_button hnode.symm
    refine ⟨Text.not_mem_oneLine _, hnatural, fun ⟨frame, content, places⟩ => ?_⟩
    have hmarks := Paint.showsLine_of_lineLimit p hlimit content true
    exact ⟨_, hmarks, by rw [Paint.marks]; rfl⟩
  · intro n h line
    obtain ⟨parent, node, hnode⟩ := Visual.exists_node_of_descend s .column h
    obtain ⟨hmessage, hnatural⟩ := Visual.notice_of_ofNode_eq_placeholder hnode.symm
    have hline : line = n.message ↔ '\n' ∉ n.typeName.toList := by
      rw [← mem_noticeMessage_iff, ← hmessage]
      exact Text.oneLine_eq_self_iff
    refine ⟨Text.not_mem_oneLine _, hnatural, hline, fun ⟨frame, content, places⟩ => ?_⟩
    have hlimit : (Paint.noticeLettering n).lineLimit = some 1 := rfl
    have hmarks := Paint.showsLine_of_lineLimit p hlimit content false
    exact ⟨_, hmarks, by rw [Paint.marks]; rfl⟩

def labelled (type : NodeType) (label : String) (children : List Node) : Node := .mk
  { type, style := .empty, content := none, url := none, label := some label, actionUrl := none,
    interactionId := none } children

/-- A button above a node of a type that does not exist. -/
def unknownBelow : Template :=
  ⟨labelled .view "" [labelled .button "Hello\nWorld" [], labelled (.unknown "map") "" []]⟩

theorem unknownBelow_paints_oneLine :
    let s : Surroundings := ⟨{}, Estimate.measure {}, fun _ => .pending⟩
    (∃ box b, descend Visual.children (unknownBelow.render s) [0] = some (.button box b) ∧
      box.natural = .ofSize (s.measure "Hello…" b.label.fontSize b.label.fontWeight)) ∧
    ∃ box n, descend Visual.children (unknownBelow.render s) [1] = some (.placeholder box n) ∧
      Text.oneLine n.message = n.message ∧
      box.natural = .ofSize (s.measure n.message noticeFontSize .regular) := by
  intro s
  have hfirst : Text.oneLine "Hello\nWorld" = "Hello…" := by decide
  obtain ⟨hbutton, -⟩ := unknownBelow.paints_oneLine s { images := s.images } [0] _
  obtain ⟨-, hline, -⟩ := hbutton _ rfl
  obtain ⟨-, hplaceholder⟩ := unknownBelow.paints_oneLine s { images := s.images } [1] _
  obtain ⟨-, hmessage, hwhole, -⟩ := hplaceholder _ rfl
  rw [← hfirst]
  exact ⟨⟨_, _, rfl, hline⟩, _, _, rfl, hwhole.mpr (by decide), hmessage⟩

/-- A placeholder for a type whose name has a line feed is as high as two lines. -/
theorem not_forall_measured_oneLine :
    ¬ ∀ (t : Template) (s : Surroundings) (path : List Nat) (box : Box) (n : Notice),
      descend Visual.children (t.render s) path = some (.placeholder box n) →
        box.natural = .ofSize (s.measure (Text.oneLine n.message) noticeFontSize .regular) := by
  intro h
  let s : Surroundings := ⟨{}, Estimate.measure {}, fun _ => .pending⟩
  have hsize := h ⟨labelled (.unknown "a\nb") "" []⟩ s [] _ _ rfl
  have hheight := congrArg NaturalSize.height hsize
  exact absurd hheight (by decide +kernel)

end ContentCard
