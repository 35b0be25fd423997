import ContentCard.Font.Path
import ContentCard.Number.Binary

/-!
Outlines made of edges, ready to be drawn in any size.

Level edges bound no area and are left out.  The others run down from the top of the outline's box,
all turned so that the outline has one sense of rotation, upright ones first.
-/

namespace ContentCard.Font

/-- The box of an outline, by its left and lower corner and its size. -/
structure Extremes where
  left : Float32 := 0
  bottom : Float32 := 0
  width : Float32 := 0
  height : Float32 := 0
deriving BEq, Repr, Inhabited

structure Outline where
  upright : List Edge := []
  slanted : List Edge := []
  box : Extremes := {}
deriving Inhabited

namespace Outline

def sameBits (x y : Float32) : Bool := x.toBits == y.toBits

def least (x y : Float32) : Float32 := if y < x then y else x

def greatest (x y : Float32) : Float32 := if x < y then y else x

/-- The greatest binary32 value. -/
def huge : Float32 := 3.4028234663852886e38

/-- Twice the area to the left of an edge, with its sign. -/
def sweep (e : Edge) : Float32 := (e.stop.y - e.start.y) * (e.stop.x + e.start.x)

def ofEdges (edges : List Edge) : Outline :=
  match edges.filter fun e => !sameBits e.start.y e.stop.y with
  | [] => {}
  | es =>
    let xs := es.flatMap fun e => [e.start.x, e.stop.x]
    let ys := es.flatMap fun e => [e.start.y, e.stop.y]
    let left := xs.foldl least huge
    let right := xs.foldl greatest (-huge)
    let bottom := ys.foldl least huge
    let top := ys.foldl greatest (-huge)
    let turned : Bool := 0 < Number.sum (es.map sweep)
    let put (p : Point) : Point := ⟨p.x - left, Float32.abs (p.y - top)⟩
    let place (e : Edge) : Edge :=
      if turned then ⟨put e.stop, put e.start⟩ else ⟨put e.start, put e.stop⟩
    let isUpright (e : Edge) : Bool := sameBits e.start.x e.stop.x
    { upright := (es.filter isUpright).map place
      slanted := (es.filter fun e => !isUpright e).map place
      box := ⟨left, bottom, right - left, top - bottom⟩ }

end Outline

end ContentCard.Font
