import ContentCard.Layout.Engine

/-!
The frame of every node of a visual.

The layout works in fractions of pixels; a frame is rounded to whole ones.
-/

namespace ContentCard

/-- The room for a card.  Without a height it is as high as its content. -/
structure Available where
  width : Float32
  height : Option Float32 := none
deriving BEq, Repr

/-- A node's border box, the box of its content inside border and padding, and its children's. -/
structure Placement where
  frame : Rect
  content : Rect
  children : List Placement
deriving Inhabited

namespace Placement

mutual

def nodeCount : Placement → Nat
  | ⟨_, _, children⟩ => 1 + nodeCounts children

def nodeCounts : List Placement → Nat
  | [] => 0
  | p :: rest => p.nodeCount + nodeCounts rest

end

end Placement

namespace Layout

/-- A surface of the available size; its only item stands at the top left. -/
def surfaceStyle (room : Available) : ItemStyle where
  size := ⟨.points room.width, (room.height.map .points).getD .auto⟩
  minSize := noSides
  margin := .zero
  padding := .zero
  border := .zero
  aspectRatio := none
  grow := 0
  shrink := 1
  basis := none
  alignSelf := ⟨none, none⟩

/-- What a card's item and those below it remember after the layout on a surface. -/
def Item.arranged (item : Item) (room : Available) (measure : Measurer) : Memo :=
  let surface : Item := .container (surfaceStyle room) (.line .vertical .start .start) [item]
  let request : Request :=
    { known := noSides
      parent := ⟨some room.width, room.height⟩
      space := ⟨.definite room.width, .ofKnown room.height .maxContent⟩
      inherent := true
      final := true }
  let (_, memo) := surface.sizer measure request surface.memo
  memo.children.headD .fresh

/-- The rounded size from `a`, of the given length, so that neighbours meet. -/
def roundedLength (a length : Float32) : Float32 := Number.round (a + length) - Number.round a

mutual

/-- The placement of a visual.  `origin` is the parent's frame, `exact` the place of its corner
before rounding. -/
def placed (origin exact : Point) : Visual → Memo → Placement
  | v, memo =>
    let place := memo.place
    let exact : Point := ⟨exact.x + place.x, exact.y + place.y⟩
    let frame : Rect :=
      { x := origin.x + Number.round place.x
        y := origin.y + Number.round place.y
        width := roundedLength exact.x place.size.width
        height := roundedLength exact.y place.size.height }
    let children :=
      match v with
      | .container _ _ children => placedAll ⟨frame.x, frame.y⟩ exact children memo.children
      | _ => []
    ⟨frame, frame.insetBy v.box.insets, children⟩

def placedAll (origin exact : Point) : List Visual → List Memo → List Placement
  | [], _ => []
  | v :: rest, memos =>
    placed origin exact v (memos.headD .fresh) :: placedAll origin exact rest memos.tail

end

end Layout

/-- The layout of a card in the available room, with text measured by `measure`, as far as it comes
(`Visual.layout?`). -/
def Visual.placement (v : Visual) (room : Available) (measure : Measurer) : Placement :=
  Layout.placed ⟨0, 0⟩ ⟨0, 0⟩ v ((Layout.Item.ofVisual .column v).arranged room measure)

/-- The layout of a card, if it comes to its end. -/
def Visual.layout? (v : Visual) (room : Available) (measure : Measurer) : Option Placement :=
  if ((Layout.Item.ofVisual .column v).arranged room measure).isHalted then none
  else some (v.placement room measure)

end ContentCard
