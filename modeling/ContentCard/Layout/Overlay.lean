import ContentCard.Layout.Memo

/-!
Items on top of each other in one cell, which is a single column crossing a single row.

The column takes its width from what the items need, then the row its height.  When all is put
into place, each is taken again if, with the other now known, an item would need something else.
-/

namespace ContentCard.Layout.Overlay

/-- What an item was found to need along an axis, without its margin. -/
structure Needs where
  minContent : Known := none
  maxContent : Known := none
  least : Known := none

structure Member where
  style : ItemStyle
  sizer : Sizer
  memo : Memo
  align : Sides Align
  needs : Sides Needs := Sides.both {}

structure Frame where
  style : ItemStyle
  /-- The room for the cell. -/
  space : Sides Space
  inner : Sides Known

namespace Member

def of (align : Sides Align) (style : ItemStyle) (sizer : Sizer) (memo : Memo) : Member :=
  { style
    sizer
    memo
    align := style.alignSelf.zipWith (fun own given => own.getD given) align }

def ask (m : Member) (r : Request) : Sides Float32 × Member :=
  let (size, memo) := m.sizer r m.memo
  (size, { m with memo := memo })

def halt (m : Member) : Member := { m with memo := m.memo.halt }

def margins (m : Member) : Sides Float32 := edgeSums m.style.margin

/-- The sides of an item that follow from its cell: its own, those that stretch to the `room`
inside its margin, and what the aspect ratio makes of them. -/
def fit (m : Member) (cell room min : Sides Known) : Sides Known :=
  let stretched (axis : Axis) : Known := if m.align.get axis = .stretch then room.get axis else none
  let own := m.style.resolvedSize cell
  let s := applyRatio m.style.aspectRatio ⟨own.width.or (stretched .horizontal), own.height⟩
  let s := applyRatio m.style.aspectRatio ⟨s.width, s.height.or (stretched .vertical)⟩
  s.zipWith Known.atLeast min

/-- What an item is asked in a cell of which one side may be known. -/
def measureRequest (m : Member) (cell : Sides Known) (otherwise : Space) : Request where
  known := m.fit cell (cell.zipWith (fun k margin => k.map (· - margin)) m.margins)
    m.style.resolvedMin
  parent := cell
  space := cell.map (Space.ofKnown · otherwise)
  inherent := true
  final := false

/-- The size of an item's content in such a cell. -/
def measure (m : Member) (axis : Axis) (cell : Sides Known) (otherwise : Space) :
    Float32 × Member :=
  let (size, m) := m.ask (m.measureRequest cell otherwise)
  (size.get axis, m)

def setNeeds (m : Member) (axis : Axis) (f : Needs → Needs) : Member :=
  { m with needs := m.needs.set axis (f (m.needs.get axis)) }

def minContent (m : Member) (axis : Axis) (cell : Sides Known) : Float32 × Member :=
  match (m.needs.get axis).minContent with
  | some v => (v, m)
  | none =>
    let (v, m) := m.measure axis cell .minContent
    (v, m.setNeeds axis ({ · with minContent := some v }))

def maxContent (m : Member) (axis : Axis) (cell : Sides Known) : Float32 × Member :=
  match (m.needs.get axis).maxContent with
  | some v => (v, m)
  | none =>
    let (v, m) := m.measure axis cell .maxContent
    (v, m.setNeeds axis ({ · with maxContent := some v }))

/-- The smallest size of an item: its own, its lower bound, or that of its content. -/
def least (m : Member) (axis : Axis) (inner cell : Sides Known) : Float32 × Member :=
  match (m.needs.get axis).least with
  | some v => (v, m)
  | none =>
    let (v, m) :=
      match ((m.style.resolvedSize inner).get axis).or (m.style.resolvedMin.get axis) with
      | some v => (v, m)
      | none => m.minContent axis cell
    (v, m.setNeeds axis ({ · with least := some v }))

/-- Measures the content again; tells whether it needs something else than before. -/
def recheck (m : Member) (axis : Axis) (cell : Sides Known) : Bool × Member :=
  let before := (m.needs.get axis).minContent
  let (v, m) := m.measure axis cell .minContent
  (some v != before, m.setNeeds axis fun _ => { minContent := some v })

end Member

/-- Measures members again up to the first that changes. -/
def recheckAny (axis : Axis) (cell : Sides Known) : List Member → Bool × List Member
  | [] => (false, [])
  | m :: rest =>
    match m.recheck axis cell with
    | (true, m) => (true, m :: rest)
    | (false, m) =>
      let (changed, rest) := recheckAny axis cell rest
      (changed, m :: rest)

namespace Frame

/-- The least and the greatest size that an item wants of its cell along an axis, with its
margin. -/
def wants (f : Frame) (axis : Axis) (cell : Sides Known) (m : Member) :
    (Float32 × Float32) × Member :=
  let margin := m.margins.get axis
  let (least, m) := m.least axis f.inner cell
  let least := least + margin
  let (least, m) :=
    match f.space.get axis with
    | .definite _ => (least, m)
    | _ =>
      let (content, m) := m.minContent axis cell
      (Number.max (content + margin) least, m)
  let (most, m) := m.maxContent axis cell
  ((least, most + margin), m)

/-- Room is given out until no more than this is left. -/
def remainder : Float32 := 0.000001

/-- What is given out of `room` to bring `base` up to `limit`, if the given number of rounds is
enough for it.  A share that would lead above the limit is not given out, and the round changes
nothing. -/
def fillWithin (base limit : Float32) : Nat → (room given : Float32) → Option Float32
  | 0, room, given => if remainder < room ∧ base + given < limit then none else some given
  | n + 1, room, given =>
    if remainder < room ∧ base + given < limit then
      let step := Number.min (limit - base) room
      if 0 < step ∧ base + step ≤ limit + remainder then
        fillWithin base limit n (room - step) (given + step)
      else fillWithin base limit n room given
    else some given

/-- What is given out in the end, if there is an end.  When rounding leaves the first share short of
the limit a second one follows, and that one is enough; but when the first one would lead above the
limit, rounds go on for ever. -/
def fill (base limit room : Float32) : Option Float32 := fillWithin base limit 2 room 0

/-- Grows from the base towards the limit as the room allows. -/
def maximise (space : Space) (base limit : Float32) : Option Float32 :=
  match space with
  | .maxContent => some limit
  | .minContent => some base
  | .definite v =>
    let room := v - base
    if room == 1.0 / 0.0 then some limit
    else if 0 < room then (fill base limit room).map (base + ·)
    else some base

/-- Takes up what the container has to spare along the axis. -/
def stretch (f : Frame) (axis : Axis) (base : Float32) : Float32 :=
  let spare :=
    match (f.inner.get axis).or (f.style.resolvedMin.get axis) with
    | some v => v - base
    | none => 0
  if 0 < spare then base + spare else base

/-- The least and the greatest size of a track, from what the items want of their cell. -/
def bounds (wanted : List (Float32 × Float32)) : Float32 × Float32 :=
  let base := wanted.foldl (fun b w => Number.max b w.1) 0
  let most := wanted.foldl (fun b w => Number.max b w.2) 0
  let limit := if 0 < most then most else 1.0 / 0.0
  let limit := if limit < base then base else limit
  let limit := if limit == 1.0 / 0.0 then base else limit
  (base, limit)

/-- The size of a track within its bounds.  The layout halts at the items if sharing out the room
does not end. -/
def resize (f : Frame) (axis : Axis) (bounds : Float32 × Float32) (ms : List Member) :
    Float32 × List Member :=
  match maximise (f.space.get axis) bounds.1 bounds.2 with
  | some v => (f.stretch axis v, ms)
  | none => (bounds.1, ms.map Member.halt)

/-- The width of the column, or the height of the row, where `across` is known of the other. -/
def track (f : Frame) (axis : Axis) (across : Known) (ms : List Member) : Float32 × List Member :=
  let asked := ms.map (f.wants axis (Sides.along axis none across))
  f.resize axis (bounds (asked.map Prod.fst)) (asked.map Prod.snd)

/-! ## Places -/

/-- The offset of an item in a cell. -/
def offset (align : Align) (cell size leading trailing : Float32) : Float32 :=
  match align with
  | .start | .stretch => leading
  | .finish => cell - size - trailing
  | .center => (cell - size + leading - trailing) / 2

/-- What an item is at least in the end. -/
def leastSize (m : Member) : Sides Known :=
  applyRatio m.style.aspectRatio (m.style.minSize.zipWith
    (fun k inset => some (Number.max (k.getD inset) inset)) m.style.insetSums)

/-- What an item is asked in the end, in a cell of the given size. -/
def putRequest (cell : Sides Float32) (m : Member) : Request :=
  let margin := m.style.margin
  let room : Sides Float32 :=
    ⟨cell.width - margin.left - margin.right, cell.height - margin.top - margin.bottom⟩
  { known := m.fit (cell.map some) (room.map some) (leastSize m)
    parent := cell.map some
    space := room.map .definite
    inherent := true
    final := true }

/-- The place of an item of the given size, in a cell at `left` and `top`. -/
def placeOf (left top : Float32) (cell size : Sides Float32) (m : Member) : Place :=
  let margin := m.style.margin
  let size := size.zipWith atLeast (leastSize m)
  let x := left + offset m.align.width (Number.max cell.width 0) size.width margin.left margin.right
  let y :=
    top + offset m.align.height (Number.max cell.height 0) size.height margin.top margin.bottom
  ⟨x, y, size⟩

/-- Lays out an item in its final size, in a cell between the given corners. -/
def put (left top right bottom : Float32) (m : Member) : Memo :=
  let cell : Sides Float32 := ⟨right - left, bottom - top⟩
  let r := putRequest cell m
  let (size, m) := m.ask r
  m.memo.putAt (placeOf left top cell (r.known.getD size) m)

/-- The row, taken again if an item would need something else in the column. -/
def retakeRow (f : Frame) (columns rows : Float32) (ms : List Member) : Float32 × List Member :=
  match recheckAny .vertical ⟨some columns, none⟩ ms with
  | (false, ms) => (rows, ms)
  | (true, ms) => f.track .vertical (some columns) ms

/-- The column, taken again if an item would need something else in the row, and then the row. -/
def retake (f : Frame) (columns rows : Float32) (ms : List Member) :
    (Float32 × Float32) × List Member :=
  match recheckAny .horizontal ⟨none, some rows⟩ ms with
  | (false, ms) => ((columns, rows), ms)
  | (true, ms) =>
    let (columns, ms) := f.track .horizontal (some rows) ms
    let (rows, ms) := f.retakeRow columns rows ms
    ((columns, rows), ms)

/-- The records of the items, which a final request puts into their places. -/
def finish (f : Frame) (r : Request) (columns rows : Float32) (ms : List Member) : List Memo :=
  if r.final then
    let ((columns, rows), ms) := f.retake columns rows ms
    let left := f.style.padding.left + f.style.border.left
    let top := f.style.padding.top + f.style.border.top
    ms.map (put left top (left + columns) (top + rows))
  else ms.map Member.memo

end Frame

/-! ## Containers -/

/-- The size that a container declares. -/
def preferred (style : ItemStyle) (r : Request) : Sides Known :=
  if r.inherent then style.resolvedSize r.parent else noSides

/-- What is settled of a container: what was asked for, or its own size. -/
def settled (style : ItemStyle) (r : Request) : Sides Known :=
  r.known.orElse ((preferred style r).zipWith Known.atLeast style.resolvedMin)

/-- The container when a size is asked for. -/
def Frame.ofRequest (style : ItemStyle) (r : Request) : Frame :=
  let insets := style.insetSums
  let min := style.resolvedMin
  let constrain (space : Space) (min : Known) (inset : Float32) : Space :=
    space.mapDefinite fun v => Number.max (atLeast v min) inset - inset
  let room := (r.known.orElse (preferred style r)).zipWith Space.ofKnown r.space
  { style
    space := ⟨constrain room.width min.width insets.width,
      constrain room.height min.height insets.height⟩
    inner := (settled style r).zipWith (fun k inset => k.map (Number.max · inset - inset)) insets }

/-- The container, of which the column gives the width unless it is settled. -/
def Frame.withColumn (f : Frame) (columns : Float32) : Frame :=
  { f with inner := ⟨f.inner.width.or (some columns), f.inner.height⟩ }

/-- The container, of which the row gives the height unless it is settled. -/
def Frame.withRow (f : Frame) (rows : Float32) : Frame :=
  { f with inner := ⟨f.inner.width, f.inner.height.or (some rows)⟩ }

/-- The container's size around a column and a row. -/
def outerSize (style : ItemStyle) (r : Request) (columns rows : Float32) : Sides Float32 :=
  let side (known min : Known) (track inset : Float32) : Float32 :=
    Number.max (atLeast (known.getD (track + inset)) min) inset
  let known := settled style r
  let min := style.resolvedMin
  let insets := style.insetSums
  ⟨side known.width min.width columns insets.width, side known.height min.height rows insets.height⟩

/-- The container's size, and what its items remember. -/
def lay (style : ItemStyle) (r : Request) (ms : List Member) : Sides Float32 × List Memo :=
  let f := Frame.ofRequest style r
  let (columns, ms) := f.track .horizontal none ms
  let f := f.withColumn columns
  let (rows, ms) := f.track .vertical (some columns) ms
  (outerSize style r columns rows, (f.withRow rows).finish r columns rows ms)

/-- The size of children on top of each other, and what they remember. -/
def size (style : ItemStyle) (align : Sides Align) (children : List (ItemStyle × Sizer))
    (r : Request) (memos : List Memo) : Sides Float32 × List Memo :=
  lay style r (children.zipWith (fun c memo => Member.of align c.1 c.2 memo) memos)

end ContentCard.Layout.Overlay
