import ContentCard.Layout.Sides
import ContentCard.Visual

/-!
What the layout reads of a visual: lengths, growth and alignment, and nothing of its paint.
-/

namespace ContentCard.Layout

inductive Dimension
  | auto
  | points (v : Float32)
  /-- A share of the parent's inner size. -/
  | share (v : Float32)
deriving BEq, Repr, Inhabited

def Dimension.resolve (d : Dimension) (parent : Known) : Known :=
  match d with
  | auto => none
  | points v => some v
  | share p => parent.map (· * p)

/-- The place of an item in the room it is given. -/
inductive Align
  | start
  | center
  | finish
  | stretch
deriving DecidableEq, Repr, Inhabited

/-- The distribution of free room along a line. -/
inductive Justify
  | start
  | center
  | finish
  | spaceBetween
  | spaceAround
  | spaceEvenly
deriving DecidableEq, Repr, Inhabited

structure ItemStyle where
  size : Sides Dimension
  minSize : Sides Known
  margin : Edges
  padding : Edges
  border : Edges
  aspectRatio : Option Float32
  grow : Float32
  shrink : Float32
  basis : Known
  /-- The item's own alignment, where it stands over its container's. -/
  alignSelf : Sides (Option Align)
deriving BEq, Repr, Inhabited

/-- Padding and border. -/
def ItemStyle.insets (s : ItemStyle) : Edges := s.padding + s.border

def ItemStyle.insetSums (s : ItemStyle) : Sides Float32 := edgeSums s.insets

def ItemStyle.resolvedSize (s : ItemStyle) (parent : Sides Known) : Sides Known :=
  applyRatio s.aspectRatio (s.size.zipWith Dimension.resolve parent)

def ItemStyle.resolvedMin (s : ItemStyle) : Sides Known := applyRatio s.aspectRatio s.minSize

/-- The arrangement of a container: its items in a line, or on top of each other. -/
inductive Flow
  | line (axis : Axis) (justify : Justify) (align : Align)
  | overlay (align : Sides Align)
deriving BEq, Repr, Inhabited

/-- Text whose height follows from the width it is given. -/
structure Run where
  content : String
  fontSize : Float32
  fontWeight : FontWeight
deriving BEq, Repr, Inhabited

inductive Item
  | container (style : ItemStyle) (flow : Flow) (children : List Item)
  | text (style : ItemStyle) (run : Run)
  | solid (style : ItemStyle)
deriving Inhabited

def Item.style : Item → ItemStyle
  | container style _ _ | text style _ | solid style => style

/-! ## Items of visuals -/

def Align.ofAlignment : Alignment → Align
  | .center => .center
  | .finish => .finish
  | .stretch => .stretch
  | _ => .start

def Justify.ofAlignment : Alignment → Justify
  | .start | .stretch => .start
  | .center => .center
  | .finish => .finish
  | .spaceBetween => .spaceBetween
  | .spaceAround => .spaceAround
  | .spaceEvenly => .spaceEvenly

def Flow.ofArrangement (a : Arrangement) : Flow :=
  match a.direction with
  | .row => .line .horizontal (.ofAlignment a.justify) (.ofAlignment a.align)
  | .column => .line .vertical (.ofAlignment a.justify) (.ofAlignment a.align)
  | .overlay => .overlay ⟨.ofAlignment a.justify, .ofAlignment a.align⟩

/-- What one axis of a box asks for in its parent. -/
structure AxisRule where
  size : Dimension := .auto
  minSize : Known := none
  /-- The box takes part in the distribution of the line's room, with this weight. -/
  weight : Option Float32 := none
  /-- The box gives room back when the line is too long. -/
  yields : Bool := false
  stretches : Bool := false

/-- The rule of an extent.  `inset` and `margin` are the sums of the edges on the axis; text that
`wraps` gets its natural size from the layout. -/
def AxisRule.of (extent : Extent) (natural : Known) (inset margin : Float32) (isMain wraps : Bool) :
    AxisRule :=
  match extent with
  | .percent p => { size := .share (p / 100) }
  | .fixed v => { size := .points v }
  | .natural =>
    match natural with
    | some v => if wraps then {} else { size := .points (v + inset) }
    | none => {}
  | .weighted w =>
    { minSize := if wraps then none else natural.map (· + inset)
      weight := some w
      yields := true }
  | .fill =>
    if isMain then { size := .share 1, minSize := some 0, yields := true }
    else if margin == 0 then { size := .share 1 }
    else { stretches := true }

def axisRule (box : Box) (parent : Direction) (wraps : Bool) (axis : Axis) : AxisRule :=
  let isMain := parent.mainAxis? = some axis
  match axis with
  | .horizontal =>
    .of box.width box.natural.width box.insets.horizontal box.margin.horizontal isMain wraps
  | .vertical =>
    .of box.height box.natural.height box.insets.vertical box.margin.vertical isMain wraps

/-- The style of a box in its parent.  Wrapping text of natural width gives way in a row; a side
that stretches does so across the line, or on its own axis in an overlay. -/
def ItemStyle.ofBox (box : Box) (parent : Direction) (wraps : Bool) : ItemStyle :=
  let h := axisRule box parent wraps .horizontal
  let v := axisRule box parent wraps .vertical
  let weight := v.weight.or h.weight
  let wrapsInRow := wraps && parent == .row && box.width == .natural
  let stretch (b : Bool) : Option Align := if b then some .stretch else none
  { size := ⟨h.size, v.size⟩
    minSize := ⟨h.minSize, v.minSize⟩
    margin := box.margin
    padding := box.padding
    border := Edges.all box.border.width
    aspectRatio := box.aspectRatio
    grow := weight.getD 0
    shrink := if h.yields || v.yields || wrapsInRow then 1 else 0
    basis := weight.map fun _ => 0
    alignSelf :=
      match parent with
      | .overlay => ⟨stretch h.stretches, stretch v.stretches⟩
      | _ => Sides.both (stretch (h.stretches || v.stretches)) }

mutual

/-- The item of a visual in a parent with the given direction. -/
def Item.ofVisual (parent : Direction) : Visual → Item
  | .container box a children =>
    .container (.ofBox box parent false) (.ofArrangement a) (ofVisuals a.direction children)
  | .text box t =>
    if t.lineLimit.isNone then
      .text (.ofBox box parent true) ⟨t.content, t.fontSize, t.fontWeight⟩
    else .solid (.ofBox box parent false)
  | .image box _ | .button box _ | .placeholder box _ => .solid (.ofBox box parent false)

def Item.ofVisuals (parent : Direction) : List Visual → List Item
  | [] => []
  | v :: rest => Item.ofVisual parent v :: Item.ofVisuals parent rest

end

end ContentCard.Layout
