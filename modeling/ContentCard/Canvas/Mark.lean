import ContentCard.Canvas.Bitmap
import ContentCard.Canvas.Shape
import ContentCard.Font.GlyphCache

/-!
Drawings as lists of marks.
-/

namespace ContentCard

inductive Mark
  | clip (r : Rect)
  | unclip
  | fill (r : Rect) (radius : Float32) (color : Color)
  | stroke (r : Rect) (radius width : Float32) (color : Color)
  | line (a b : Point) (width : Float32) (color : Color)
  | image (picture : Picture) (dest : Rect)
  /-- A line of text from its left end, with the top of its height. -/
  | letters (font : Font) (text : List Char) (left top size : Float32) (color : Color)

/-- A canvas, and the glyphs that have been drawn on it. -/
structure Easel where
  canvas : Canvas
  glyphs : GlyphCache := []

namespace Easel

/-- Draws glyphs one behind the other on their line. -/
def letters (e : Easel) (font : Font) (size baseline : Float32) (color : Color) :
    (x : Float32) → List Char → Easel
  | _, [] => e
  | x, c :: rest =>
    let (g, glyphs) := GlyphCache.render font e.glyphs c size
    let left := Number.toInt32 (Number.round (x + Float32.ofInt g.left))
    let top := Number.toInt32
      (Number.round (baseline - Float32.ofNat g.height - Float32.ofInt g.bottom))
    let e : Easel := ⟨e.canvas.mask left top g.width g.coverage color, glyphs⟩
    e.letters font size baseline color (x + g.advance) rest

def draw (e : Easel) : Mark → Easel
  | .clip r => { e with canvas := e.canvas.pushClip r }
  | .unclip => { e with canvas := e.canvas.popClip }
  | .fill r radius color => { e with canvas := e.canvas.fillRounded r radius color }
  | .stroke r radius width color => { e with canvas := e.canvas.strokeRounded r radius width color }
  | .line a b width color => { e with canvas := e.canvas.line a b width color }
  | .image picture dest => { e with canvas := e.canvas.image picture dest }
  | .letters font text left top size color =>
    e.letters font size (top + font.ascentAt size) color left text

end Easel

def Canvas.draw (c : Canvas) (marks : List Mark) : Canvas := (marks.foldl Easel.draw ⟨c, []⟩).canvas

end ContentCard
