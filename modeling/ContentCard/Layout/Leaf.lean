import ContentCard.Layout.Memo

/-!
The size of an item without children: text, or content that does not depend on its room.
-/

namespace ContentCard.Layout

/-- The size of content in the room it is given, with the sides that are already settled. -/
abbrev Content := Sides Known → Sides Space → Sides Float32

def emptyContent : Content := fun _ _ => ⟨0, 0⟩

/-- The greatest width of a line in a room; in as little room as possible every character stands
alone. -/
def lineLimit : Space → Option Float32
  | .definite w => some w
  | .minContent => some 0
  | .maxContent => none

/-- Text is broken to the room's width and as high as its lines. -/
def Run.contentSize (run : Run) (measure : Measurer) : Content := fun known space =>
  match known with
  | ⟨some w, some h⟩ => ⟨w, h⟩
  | ⟨w, h⟩ =>
    let lines := measure.wrap run.content run.fontSize run.fontWeight (lineLimit space.width)
    let size := measure ("\n".intercalate lines) run.fontSize run.fontWeight
    ⟨w.getD size.width, h.getD size.height⟩

/-- The room for the content along an axis: what is settled, else the parent's room without the
margin, and always without padding and border. -/
def leafSpace (known size min : Known) (space : Space) (margin inset : Float32) : Space :=
  let outer := (Space.ofKnown known space).mapDefinite (· - margin)
  let settled := Space.ofKnown size (Space.ofKnown known outer)
  settled.mapDefinite fun v => atLeast v min - inset

def leafSize (style : ItemStyle) (content : Content) (r : Request) : Sides Float32 :=
  let size := if r.inherent then r.known.orElse (style.resolvedSize r.parent) else r.known
  let min := if r.inherent then style.resolvedMin else noSides
  let ratio := if r.inherent then style.aspectRatio else none
  let insets := style.insetSums
  match r.final, size with
  | false, ⟨some w, some h⟩ =>
    ⟨Number.max (atLeast w min.width) insets.width, Number.max (atLeast h min.height) insets.height⟩
  | _, _ =>
    let margin := edgeSums style.margin
    let space : Sides Space :=
      ⟨leafSpace r.known.width size.width min.width r.space.width margin.width insets.width,
        leafSpace r.known.height size.height min.height r.space.height margin.height insets.height⟩
    let measured := content (if r.final then noSides else r.known) space
    let outer := measured.zipWith (· + ·) insets
    let clamped := ((r.known.orElse size).getD outer).zipWith atLeast min
    let height := Number.max clamped.height ((ratio.map (clamped.width / ·)).getD 0)
    ⟨Number.max clamped.width insets.width, Number.max height insets.height⟩

/-- A leaf has no children to put into place. -/
def leafSizer (style : ItemStyle) (content : Content) : Sizer := fun r m =>
  (leafSize style content r, m)

end ContentCard.Layout
