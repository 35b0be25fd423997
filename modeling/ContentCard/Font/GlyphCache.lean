import ContentCard.Font

/-!
Glyph images that have been drawn, by character and size in tenths of a pixel.

Sizes that are equal in tenths share the image that was drawn first.
-/

namespace ContentCard

abbrev GlyphCache := List ((Char × Nat) × GlyphImage)

namespace GlyphCache

def key (c : Char) (size : Float32) : Char × Nat := (c, Number.toUInt32 (Number.round (size * 10)))

/-- The image of a glyph, drawn unless one of its key is there. -/
def render (f : Font) (cache : GlyphCache) (c : Char) (size : Float32) : GlyphImage × GlyphCache :=
  match cache.lookup (key c size) with
  | some image => (image, cache)
  | none =>
    let image := f.render c size
    (image, (key c size, image) :: cache)

end GlyphCache

end ContentCard
