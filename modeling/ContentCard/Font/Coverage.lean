import ContentCard.Font.Outline

/-!
The coverage of pixels by an outline.

Every edge adds, in each cell it crosses, the signed height it spans there; what lies left of the
edge inside the cell goes to the next one.  The sum from the first cell up to a cell is then the
covered part of that cell.
-/

namespace ContentCard.Font

/-- Cells row by row, with three more behind the last. -/
structure Sheet where
  width : Nat
  height : Nat
  cells : Array Float32

namespace Sheet

def blank (width height : Nat) : Sheet := ⟨width, height, Array.replicate (width * height + 3) 0⟩

def fraction (x : Float32) : Float32 := x - Number.trunc x

def isNegative (x : Float32) : Bool := 0x80000000 ≤ x.toBits

def sign (x : Float32) : Float32 := if isNegative x then -1 else 1

/-- Adds a height whose edge stands at `mid` across the cell. -/
def add (s : Sheet) (index : Int) (height mid : Float32) : Sheet :=
  let part := height * mid
  let i := index.toNat
  { s with cells := (s.cells.modify i (· + (height - part))).modify (i + 1) (· + part) }

/-- The cell of a coordinate; one at the end of an edge belongs to the cell in front of it. -/
def cell (x : Float32) (isEnd : Bool) : Float32 :=
  Number.trunc (if isEnd then Float32.ofBits (x.toBits - 1) else x)

/-- Scale and offset of an outline on a sheet. -/
structure Fitting where
  scale : Float32
  dx : Float32
  dy : Float32

def Fitting.apply (f : Fitting) (p : Point) : Point := ⟨p.x * f.scale + f.dx, p.y * f.scale + f.dy⟩

/-- Goes down or up an upright edge, cell by cell. -/
def walkUpright (step : Int) (dy mid stop : Float32) :
    (count : Nat) → Sheet → Int → (y next : Float32) → Sheet
  | 0, s, index, y, _ => s.add index (y - stop) mid
  | n + 1, s, index, y, next =>
    walkUpright step dy mid stop n (s.add index (y - next) mid) (index + step) next (next + dy)

def count (x : Float32) : Nat := (Number.toInt32 x).toNat

def drawUpright (f : Fitting) (s : Sheet) (e : Edge) : Sheet :=
  let a := f.apply e.start
  let b := f.apply e.stop
  let down : Bool := e.start.y ≤ e.stop.y
  let x := cell a.x false
  let y := cell a.y (!down)
  let last := cell b.y down
  let dy := sign (b.y - a.y)
  let step := Number.toInt32 (dy * Float32.ofNat s.width)
  walkUpright step dy (fraction a.x) b.y (count (Float32.abs (y - last))) s
    (Number.toInt32 (x + y * Float32.ofNat s.width)) a.y (y + if down then 1 else 0)

/-- What stays the same along a slanted edge. -/
structure Slope where
  start : Point
  run : Float32
  rise : Float32
  /-- The part of the edge that crosses one column, and one row. -/
  perColumn : Float32
  perRow : Float32
  columnStep : Float32
  rowStep : Float32
  indexStep : Int

/-- A point on the way along a slanted edge: the next column and row boundaries and their places on
the edge, and the cell that the way is in. -/
structure Step where
  nextX : Float32
  nextY : Float32
  atX : Float32
  atY : Float32
  here : Point
  index : Int

def walkSlanted (slope : Slope) (stop : Point) : (count : Nat) → Sheet → Step → Sheet
  | 0, s, w => s.add w.index (w.here.y - stop.y) (fraction ((w.here.x + stop.x) / 2))
  | n + 1, s, w =>
    let (there, w') : Point × Step :=
      if w.atX < w.atY then
        (⟨w.nextX, w.atX * slope.rise + slope.start.y⟩,
          { w with
            atX := w.atX + slope.perColumn
            nextX := w.nextX + slope.columnStep
            index := w.index + Number.toInt32 slope.columnStep })
      else
        (⟨w.atY * slope.run + slope.start.x, w.nextY⟩,
          { w with
            atY := w.atY + slope.perRow
            nextY := w.nextY + slope.rowStep
            index := w.index + slope.indexStep })
    let s := s.add w.index (w.here.y - there.y) (fraction ((w.here.x + there.x) / 2))
    walkSlanted slope stop n s { w' with here := there }

def drawSlanted (f : Fitting) (s : Sheet) (e : Edge) : Sheet :=
  let a := f.apply e.start
  let b := f.apply e.stop
  let right : Bool := e.start.x ≤ e.stop.x
  let down : Bool := e.start.y ≤ e.stop.y
  let startX := cell a.x (!right)
  let startY := cell a.y (!down)
  let stopX := cell b.x right
  let stopY := cell b.y down
  let dx := e.stop.x - e.start.x
  let dy := e.stop.y - e.start.y
  let perColumn := (if dx == 0 then Outline.huge else 1 / dx) * (1 / f.scale)
  let perRow := 1 / dy * (1 / f.scale)
  let nextX := startX + if right then 1 else 0
  let nextY := startY + if down then 1 else 0
  let rowStep := sign perRow
  let slope : Slope :=
    { start := a
      run := dx * f.scale
      rise := dy * f.scale
      perColumn := Float32.abs perColumn
      perRow := Float32.abs perRow
      columnStep := sign perColumn
      rowStep
      indexStep := Number.toInt32 (rowStep * Float32.ofNat s.width) }
  walkSlanted slope b
    (count (Float32.abs (startX - stopX) + Float32.abs (startY - stopY))) s
    { nextX
      nextY
      atX := perColumn * (nextX - a.x)
      atY := perRow * (nextY - a.y)
      here := a
      index := Number.toInt32 (startX + startY * Float32.ofNat s.width) }

def draw (s : Sheet) (f : Fitting) (o : Outline) : Sheet :=
  o.slanted.foldl (drawSlanted f) (o.upright.foldl (drawUpright f) s)

/-- A full cell is a byte of 255. -/
def toByte (x : Float32) : UInt8 := Number.toByte (Float32.abs x * 255.9)

/-- The running sums, four cells at a time. -/
def sums (before : Float32) : List Float32 → List Float32
  | a :: b :: c :: d :: rest =>
    let p := b + a
    let q := c + b
    let r := d + c
    let last := r + p + before
    (a + before) :: (p + before) :: (q + a + before) :: last :: sums last rest
  | _ => []

def coverage (s : Sheet) : List UInt8 :=
  ((sums 0 s.cells.toList).map toByte).take (s.width * s.height)

end Sheet

end ContentCard.Font
