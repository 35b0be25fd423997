import ContentCard.Layout.Memo

/-!
Items in a line along a main axis.

Every item starts from its basis; the line's free room is shared out by growth, or taken back by
shrinkage, without passing the items' least sizes.  Then the items get their sizes across the line
and their places.
-/

namespace ContentCard.Layout.Line

/-- A child on its way through the layout of its line. -/
structure Member where
  style : ItemStyle
  sizer : Sizer
  memo : Memo
  size : Sides Known
  min : Sides Known
  align : Align
  basis : Float32 := 0
  innerBasis : Float32 := 0
  leastMain : Float32 := 0
  /-- The basis within the item's bounds, without and with the margin. -/
  likely : Float32 := 0
  outerLikely : Float32 := 0
  /-- The size across the line that the item would choose, without and with the margin. -/
  crossLikely : Float32 := 0
  outerCrossLikely : Float32 := 0
  target : Sides Float32 := ⟨0, 0⟩
  outerTarget : Sides Float32 := ⟨0, 0⟩
  violation : Float32 := 0
  frozen : Bool := false
  mainOffset : Float32 := 0
  crossOffset : Float32 := 0

/-- The container of a line: its own style, the axis, and what is known of its size. -/
structure Frame where
  axis : Axis
  justify : Justify
  style : ItemStyle
  outer : Sides Known
  inner : Sides Known

namespace Member

def ask (m : Member) (r : Request) : Sides Float32 × Member :=
  let (size, memo) := m.sizer r m.memo
  (size, { m with memo := memo })

def margins (m : Member) : Sides Float32 := edgeSums m.style.margin

def insets (m : Member) : Sides Float32 := m.style.insetSums

def of (frame : Frame) (align : Align) (style : ItemStyle) (sizer : Sizer) (memo : Memo) :
    Member :=
  { style
    sizer
    memo
    size := style.resolvedSize frame.inner
    min := style.resolvedMin
    align := (style.alignSelf.get frame.axis.other).getD align }

end Member

namespace Frame

def cross (f : Frame) : Axis := f.axis.other

def insets (f : Frame) : Sides Float32 := f.style.insetSums

def min (f : Frame) : Sides Known := f.style.resolvedMin

/-- The room for the items: the container's inner size, or the room around it without its edges. -/
def itemSpace (f : Frame) (space : Sides Space) : Sides Space :=
  let side (known : Known) (space : Space) (margin inset : Float32) : Space :=
    match known with
    | some v => .definite (v - inset)
    | none => space.mapDefinite fun v => v - margin - inset
  let margin := edgeSums f.style.margin
  ⟨side f.outer.width space.width margin.width f.insets.width,
    side f.outer.height space.height margin.height f.insets.height⟩

/-- The room across the line for an item. -/
def crossSpace (f : Frame) (space : Sides Space) (m : Member) : Space :=
  let margin := (edgeSums f.style.margin).get f.cross
  let min := (m.min.get f.cross).map (· + margin)
  ((space.get f.cross).mapDefinite fun v => (f.inner.get f.cross).getD v).mapDefinite
    fun v => atLeast v min

/-- What is known of an item whose main size is asked for; a stretched item fills the line. -/
def knownAcross (f : Frame) (crossSpace : Space) (m : Member) : Sides Known :=
  let known := m.size.set f.axis none
  if m.align = .stretch ∧ (known.get f.cross).isNone then
    known.set f.cross (crossSpace.known.map (· - m.margins.get f.cross))
  else known

/-! ## Sizes along the line -/

/-- The item's declared basis or size, or the size of its content. -/
def findBasis (f : Frame) (space : Sides Space) (m : Member) : Member :=
  let crossSpace := f.crossSpace space m
  let known := f.knownAcross crossSpace m
  let parent := Sides.along f.axis none (f.inner.get f.cross)
  let request (main : Space) : Request :=
    { known, parent, space := Sides.along f.axis main crossSpace,
      inherent := false, final := false }
  let (basis, m) :=
    match m.style.basis.or (m.size.get f.axis) with
    | some v => (v, m)
    | none =>
      let main := if space.get f.axis == Space.minContent then Space.minContent else .maxContent
      let (size, m) := m.ask (request main)
      (size.get f.axis, m)
  let inset := m.insets.get f.axis
  let basis := Number.max basis inset
  let (least, m) :=
    match m.min.get f.axis with
    | some v => (v, m)
    | none =>
      let (size, m) := m.ask (request Space.minContent)
      let content := size.get f.axis
      let content := match m.size.get f.axis with
        | some v => Number.min content v
        | none => content
      (Number.max content inset, m)
  let likely := Number.max basis (Number.max least inset)
  { m with
    basis
    innerBasis :=
      basis - edgeSum m.style.padding f.axis - edgeSum m.style.border f.axis
    leastMain := least
    likely
    outerLikely := likely + m.margins.get f.axis }
where
  edgeSum (e : Edges) (axis : Axis) : Float32 := (edgeSums e).get axis

/-- What an item adds to the length of a container that is as long as its content. -/
def contribution (f : Frame) (space : Sides Space) (m : Member) : Float32 × Member :=
  let margin := m.margins.get f.axis
  let styleMin := m.min.get f.axis
  let preferred := m.size.get f.axis
  let clamping := atLeast m.basis preferred
  let basisMin := if m.style.shrink == 0 then some clamping else none
  let basisMax := if m.style.grow == 0 then some clamping else none
  let least := Number.max
    (((Known.atLeast styleMin basisMin).or basisMin).getD m.leastMain) m.leastMain
  let most := basisMax.getD (1.0 / 0.0)
  let pinned := match preferred with
    | some p =>
      if most ≤ least ∨ most ≤ p then some (Number.max (Number.min p most) least) else none
    | none => none
  match pinned with
  | some v => (v + margin, m)
  | none =>
    if most ≤ least then (least + margin, m)
    else
      let crossSpace := f.crossSpace space m
      let (size, m) := m.ask
        { known := f.knownAcross crossSpace m
          parent := f.inner
          space := space.set f.cross crossSpace
          inherent := true
          final := false }
      let content := size.get f.axis + margin
      let inset := f.insets.get f.axis
      match f.axis with
      | .horizontal => (Number.max (atLeast content styleMin) inset, m)
      | .vertical => (Number.max (atLeast (Number.max content m.basis) styleMin) inset, m)

/-- The length an item is given in such a container. -/
def contributed (m : Member) (contribution : Float32) : Float32 :=
  let diff := contribution - m.basis
  let part :=
    if 0 < diff then
      let grow := Number.max 1 m.style.grow
      grow * (diff / grow)
    else if diff < 0 then
      let share := diff / Number.max 1 (m.style.shrink * m.innerBasis)
      Number.max 1 m.style.shrink * m.innerBasis * share
    else 0
  m.basis + part

/-- The container's length along the line where it is not known, from its items. -/
def mainSize (f : Frame) (space : Sides Space) (ms : List Member) : Float32 × List Member :=
  let inset := f.insets.get f.axis
  let (length, ms) :=
    match space.get f.axis with
    | .definite _ =>
      let lengths := ms.map fun m =>
        Number.max (m.basis + m.margins.get f.axis) (m.insets.get f.axis)
      (Number.sum lengths + inset, ms)
    | _ =>
      let asked := ms.map fun m =>
        let (c, m) := f.contribution space m
        (contributed m c, m)
      (Number.max 0 (Number.sum (asked.map Prod.fst)) + inset, asked.map Prod.snd)
  (Number.max (atLeast length (f.min.get f.axis)) inset, ms)

/-! ## Free room -/

/-- The length a member takes while the free room is shared out.  The margin of a frozen member
counts once more. -/
def taken (f : Frame) (m : Member) : Float32 :=
  m.margins.get f.axis + if m.frozen then m.outerTarget.get f.axis else m.basis

def setTarget (f : Frame) (m : Member) (v : Float32) : Member :=
  { m with target := m.target.set f.axis v }

def setOuterTarget (f : Frame) (m : Member) (v : Float32) : Member :=
  { m with outerTarget := m.outerTarget.set f.axis v }

/-- A float that is neither zero, subnormal, infinite nor undefined. -/
def isNormal (x : Float32) : Bool := x.isFinite && 1.17549435e-38 ≤ Float32.abs x

/-- A member's share of the free room. -/
def shareOut (f : Frame) (growing : Bool) (room growSum shrinkSum : Float32)
    (ms : List Member) (m : Member) : Member :=
  if growing then
    if 0 < growSum then f.setTarget m (m.basis + room * (m.style.grow / growSum)) else m
  else if 0 < shrinkSum then
    let sum := Number.sum ((ms.filter (!·.frozen)).map fun m => m.innerBasis * m.style.shrink)
    if 0 < sum then f.setTarget m (m.basis + room * (m.innerBasis * m.style.shrink / sum)) else m
  else m

/-- Keeps a member within its bounds and notes by how much that changed it. -/
def bound (f : Frame) (m : Member) : Member :=
  let target := m.target.get f.axis
  let clamped := Number.max (Number.max target m.leastMain) 0
  f.setOuterTarget { f.setTarget m clamped with violation := clamped - target }
    (clamped + m.margins.get f.axis)

def freeze (total : Float32) (m : Member) : Member :=
  if 0 < total then { m with frozen := 0 < m.violation }
  else if total < 0 then { m with frozen := m.violation < 0 }
  else { m with frozen := true }

/-- One round: shares out the room among the free members and freezes those that hit a bound. -/
def round (f : Frame) (inner initialRoom : Float32) (growing : Bool) (ms : List Member) :
    List Member :=
  let room := inner - Number.sum (ms.map f.taken)
  let free := ms.filter (!·.frozen)
  let growSum := Number.sum (free.map (·.style.grow))
  let shrinkSum := Number.sum (free.map (·.style.shrink))
  let room :=
    if growing && growSum < 1 then Number.min (initialRoom * growSum) room
    else if !growing && shrinkSum < 1 then Number.max (initialRoom * shrinkSum) room
    else room
  let change (m : Member) : Member :=
    if m.frozen then m
    else f.bound (if isNormal room then f.shareOut growing room growSum shrinkSum ms m else m)
  let ms' := ms.map change
  let total := Number.sum ((ms'.filter (!·.frozen)).map Member.violation)
  ms'.map fun m => if m.frozen then m else freeze total m

/-- Every round freezes a member, so as many rounds as members are enough. -/
def rounds (f : Frame) (inner initialRoom : Float32) (growing : Bool) :
    Nat → List Member → List Member
  | 0, ms => ms
  | n + 1, ms =>
    if ms.all Member.frozen then ms
    else f.rounds inner initialRoom growing n (f.round inner initialRoom growing ms)

/-- The members' lengths along the line. -/
def resolveMain (f : Frame) (inner : Float32) (ms : List Member) : List Member :=
  let used := Number.sum (ms.map Member.outerLikely)
  let growing : Bool := used < inner
  let start (m : Member) : Member :=
    let m := f.setTarget m m.likely
    if (m.style.grow == 0 && m.style.shrink == 0) || (growing && m.likely < m.basis) ||
        (!growing && m.basis < m.likely) then
      f.setOuterTarget { m with frozen := true } (m.likely + m.margins.get f.axis)
    else m
  let ms := ms.map start
  f.rounds inner (inner - Number.sum (ms.map f.taken)) growing ms.length ms

/-! ## Sizes across the line -/

/-- The size across the line that an item would choose. -/
def findCross (f : Frame) (space : Sides Space) (outerMain : Float32) (m : Member) : Member :=
  let inset := m.insets.get f.cross
  let min := m.min.get f.cross
  let (cross, m) :=
    match m.size.get f.cross with
    | some v => (Number.max (atLeast v min) inset, m)
    | none =>
      let room := (space.get f.cross).mapDefinite fun v => Number.max (atLeast v min) inset
      let (size, m) := m.ask
        { known := Sides.along f.axis (some (m.target.get f.axis)) none
          parent := f.inner
          space := Sides.along f.axis (.definite outerMain) room
          inherent := false
          final := false }
      (Number.max (atLeast (size.get f.cross) min) inset, m)
  { m with crossLikely := cross, outerCrossLikely := cross + m.margins.get f.cross }

/-- The line's size across: the container's inner size, or its largest item. -/
def lineCross (f : Frame) (ms : List Member) : Float32 :=
  let inset := f.insets.get f.cross
  let min := f.min.get f.cross
  match f.outer.get f.cross with
  | some v => Number.max (atLeast v min - inset) 0
  | none =>
    let largest := ms.foldl (fun w m => Number.max w m.outerCrossLikely) 0
    let line := atLeast largest (min.map (· - inset))
    let least := ((min.map fun v => Number.max (v - inset) 0)).getD 0
    if line < least then line + (least - line) else line

def setCross (f : Frame) (line : Float32) (m : Member) : Member :=
  let auto := match m.style.size.get f.cross with
    | .auto => true
    | _ => false
  let cross :=
    if m.align = .stretch && auto then
      atLeast (line - m.margins.get f.cross) (m.min.get f.cross)
    else m.crossLikely
  { m with
    target := m.target.set f.cross cross
    outerTarget := m.outerTarget.set f.cross (cross + m.margins.get f.cross) }

/-! ## Places -/

/-- The distance in front of an item of a line. -/
def spacing (justify : Justify) (room : Float32) (count : Nat) (isFirst : Bool) : Float32 :=
  let n := Float32.ofNat count
  if isFirst then
    match justify with
    | .start | .spaceBetween => 0
    | .finish => room
    | .center => room / 2
    | .spaceAround => if 0 < room then room / n / 2 else 0
    | .spaceEvenly => if 0 < room then room / Float32.ofNat (count + 1) else 0
  else
    let room := Number.max room 0
    match justify with
    | .start | .finish | .center => 0
    | .spaceBetween => room / Float32.ofNat (count - 1)
    | .spaceAround => room / n
    | .spaceEvenly => room / Float32.ofNat (count + 1)

def placeMain (f : Frame) (inner : Float32) (ms : List Member) : List Member :=
  let room := inner - Number.sum (ms.map fun m => m.outerTarget.get f.axis)
  let offset (isFirst : Bool) (m : Member) : Member :=
    { m with mainOffset := spacing f.justify room ms.length isFirst }
  match ms with
  | [] => []
  | m :: rest => offset true m :: rest.map (offset false)

def placeCross (f : Frame) (line : Float32) (m : Member) : Member :=
  let room := line - m.outerTarget.get f.cross
  let offset := match m.align with
    | .start | .stretch => 0
    | .finish => room
    | .center => room / 2
  { m with crossOffset := offset }

/-- Lays out the children in their final sizes, one behind the other. -/
def putAll (f : Frame) (inner : Sides Known) (outer : Sides Float32) (cursor : Float32) :
    List Member → List Memo
  | [] => []
  | m :: rest =>
    let (size, m) := m.ask
      { known := m.target.map some
        parent := inner
        space := outer.map .definite
        inherent := false
        final := true }
    let main := cursor + m.mainOffset + leadingEdge m.style.margin f.axis
    let cross := leadingEdge f.style.insets f.cross + m.crossOffset +
      leadingEdge m.style.margin f.cross
    let at' := Sides.along f.axis main cross
    let memo := m.memo.putAt ⟨at'.width, at'.height, size⟩
    let cursor := cursor + m.mainOffset + m.margins.get f.axis + size.get f.axis
    memo :: f.putAll inner outer cursor rest

end Frame

/-- What is settled of a container: what was asked for, or its own size. -/
def settled (style : ItemStyle) (r : Request) : Sides Known :=
  let own := if r.inherent then
      ((style.resolvedSize r.parent).zipWith Known.atLeast style.resolvedMin).zipWith
        (fun k inset => k.map (Number.max · inset)) style.insetSums
    else noSides
  r.known.orElse own

/-- The size of a line of children, and what they remember. -/
def size (style : ItemStyle) (axis : Axis) (justify : Justify) (align : Align)
    (children : List (ItemStyle × Sizer)) (r : Request) (memos : List Memo) :
    Sides Float32 × List Memo :=
  let outer := settled style r
  match r.final, outer with
  | false, ⟨some w, some h⟩ => (⟨w, h⟩, memos)
  | _, _ =>
    let insets := style.insetSums
    let inner := outer.zipWith (fun k inset => k.map (· - inset)) insets
    let f : Frame := { axis, justify, style, outer, inner }
    let members := children.zipWith (fun c memo => Member.of f align c.1 c.2 memo) memos
    let space := f.itemSpace r.space
    let members := members.map (f.findBasis space)
    let (outerMain, members) :=
      match outer.get axis with
      | some v => (v - insets.get axis + insets.get axis, members)
      | none => f.mainSize space members
    let innerMain := match inner.get axis with
      | some v => v
      | none => Number.max (outerMain - insets.get axis) 0
    let f := { f with inner := f.inner.set axis (some innerMain) }
    let members := f.resolveMain innerMain members
    let members := members.map (f.findCross space outerMain)
    let line := f.lineCross members
    let members := members.map (f.setCross line)
    let members := (f.placeMain innerMain members).map (f.placeCross line)
    let outerCross := Number.max
      (atLeast ((outer.get f.cross).getD (line + insets.get f.cross)) (f.min.get f.cross))
      (insets.get f.cross)
    let size := Sides.along axis outerMain outerCross
    if r.final then
      (size, f.putAll f.inner size (leadingEdge style.insets axis) members)
    else (size, members.map Member.memo)

end ContentCard.Layout.Line
