import ContentCard.Canvas.Mark
import ContentCard.Card
import ContentCard.Picture.Fit

/-!
The marks that show a card.

Every node shows its background and border, then its content, then its children one after the
other.  Text is cut off at its content box.  Without a font every character is a block.
-/

namespace ContentCard

/-- What a painting may use besides the card. -/
structure PaintBox where
  font : Option Font := none
  /-- The images as they are now. -/
  images : ImageSource

namespace PaintBox

def blockEstimate : Estimate := {}

def measure (p : PaintBox) : Measurer := (p.font.map Font.measure).getD blockEstimate.measure

def lineHeight (p : PaintBox) (size : Float32) : Float32 :=
  match p.font with
  | some f => Number.ceil (f.lineHeightAt size)
  | none => blockEstimate.lineHeight size

end PaintBox

namespace Paint

def imageColor : Color := ⟨0.9, 0.9, 0.92, 1⟩

def imageSignColor : Color := ⟨0.6, 0.6, 0.64, 1⟩

def noticeColor : Color := ⟨1, 0.23, 0.19, 1⟩

def boxMarks (box : Box) (frame : Rect) : List Mark :=
  let background := match box.background with
    | some color => [Mark.fill frame box.border.radius color]
    | none => []
  let border :=
    if 0 < box.border.width then
      [Mark.stroke frame box.border.radius box.border.width box.border.color]
    else []
  background ++ border

/-! ## Text -/

/-- A block for every character but blanks. -/
def blockMarks (line : List Char) (left top : Float32) (t : Lettering) (color : Color) :
    List Mark :=
  let advance := PaintBox.blockEstimate.advance t.fontSize t.fontWeight
  let height := t.fontSize * 0.7
  let y := top + (PaintBox.blockEstimate.lineHeight t.fontSize - height) / 2
  line.zipIdx.filterMap fun (c, i) =>
    if Text.isBlank c then none
    else
      let x := left + Float32.ofNat i * advance
      some (.fill ⟨x + advance * 0.1, y, advance * 0.8, height⟩ 0 color)

def lineMarks (p : PaintBox) (line : String) (left top : Float32) (t : Lettering) (color : Color) :
    List Mark :=
  match p.font with
  | some font => [.letters font line.toList left top t.fontSize color]
  | none => blockMarks line.toList left top t color

/-- Frames have whole widths; half a pixel more keeps a line that fitted before rounding. -/
def spareWidth : Float32 := 0.5

/-- The lines of a text in the width of its box. -/
def shownLines (p : PaintBox) (t : Lettering) (bounds : Rect) : List String :=
  t.wrappedLines p.measure (some (bounds.width + spareWidth))

def textMarks (p : PaintBox) (t : Lettering) (bounds : Rect) (centered : Bool) : List Mark :=
  let color := t.color.getD .black
  let marks := (shownLines p t bounds).zipIdx.flatMap fun (line, i) =>
    let top := bounds.y + Float32.ofNat i * p.lineHeight t.fontSize
    let width := (p.measure line t.fontSize t.fontWeight).width
    let left := if centered then bounds.x + (bounds.width - width) / 2 else bounds.x
    lineMarks p line left top t color
  .clip bounds :: marks ++ [.unclip]

def noticeLettering (n : Notice) : Lettering :=
  { content := n.message
    fontSize := noticeFontSize
    fontWeight := .regular
    color := some noticeColor
    lineLimit := some 1 }

/-! ## Images -/

def crossMarks (bounds : Rect) : List Mark :=
  let left := bounds.x
  let top := bounds.y
  let right := bounds.right
  let bottom := bounds.bottom
  [.clip bounds, .line ⟨left, top⟩ ⟨right, bottom⟩ 1.5 imageSignColor,
    .line ⟨right, top⟩ ⟨left, bottom⟩ 1.5 imageSignColor, .unclip]

/-- Three dots in a row around the centre. -/
def dotMarks (bounds : Rect) : List Mark :=
  let x := bounds.x + bounds.width / 2
  let y := bounds.y + bounds.height / 2
  [-8, 0, 8].map fun (offset : Float32) => .fill ⟨x + offset - 2, y - 2, 4, 4⟩ 2 imageSignColor

def pictureMarks (picture : Picture) (scale : ContentScale) (bounds : Rect) : List Mark :=
  let fit := Fit.of scale ⟨Float32.ofNat picture.width, Float32.ofNat picture.height⟩ bounds
  if fit.clipped then [.clip bounds, .image picture fit.dest, .unclip]
  else [.image picture fit.dest]

/-- The picture of an image that had arrived when the card was rendered, and is still there. -/
def picture? (images : ImageSource) (c : ImageContent) : Option Picture :=
  match c.phase, c.url.map fun u => images u.text with
  | .loaded _ _, some (.loaded picture) => some picture
  | _, _ => none

/-- A picture, or a place for it: crossed out after a failure, and else with three dots. -/
def imageMarks (p : PaintBox) (c : ImageContent) (bounds : Rect) : List Mark :=
  match picture? p.images c with
  | some picture => pictureMarks picture c.scale bounds
  | none =>
    .fill bounds 0 imageColor :: if c.phase = .failed then crossMarks bounds else dotMarks bounds

/-! ## Trees -/

mutual

def marks (p : PaintBox) : Visual → Placement → List Mark
  | v, ⟨frame, content, places⟩ =>
    boxMarks v.box frame ++
      match v with
      | .container _ _ children => allMarks p children places
      | .text _ t => textMarks p t content false
      | .button _ b => textMarks p b.label content true
      | .image _ c => imageMarks p c content
      | .placeholder _ n =>
        .stroke frame 2 1 noticeColor :: textMarks p (noticeLettering n) content false

def allMarks (p : PaintBox) : List Visual → List Placement → List Mark
  | v :: vs, place :: places => marks p v place ++ allMarks p vs places
  | _, _ => []

end

end Paint

def Card.marks (card : Card) (p : PaintBox) : List Mark := Paint.marks p card.tree card.layout

/-- Paints a card on a canvas. -/
def Card.paint (card : Card) (p : PaintBox) (canvas : Canvas) : Canvas := canvas.draw (card.marks p)

end ContentCard
