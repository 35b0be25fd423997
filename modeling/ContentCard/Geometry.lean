import ContentCard.Number.Binary

/-!
Points, sizes, rectangles and the widths of a rectangle's four edges.
-/

namespace ContentCard

structure Point where
  x : Float32
  y : Float32
deriving BEq, Repr, Inhabited

structure Size where
  width : Float32
  height : Float32
deriving BEq, Repr, Inhabited

structure Edges where
  top : Float32
  right : Float32
  bottom : Float32
  left : Float32
deriving BEq, Repr, Inhabited

structure Rect where
  x : Float32
  y : Float32
  width : Float32
  height : Float32
deriving BEq, Repr, Inhabited

namespace Edges

def all (v : Float32) : Edges := ⟨v, v, v, v⟩

def zero : Edges := all 0

def symmetric (vertical horizontal : Float32) : Edges :=
  ⟨vertical, horizontal, vertical, horizontal⟩

def horizontal (e : Edges) : Float32 := e.left + e.right

def vertical (e : Edges) : Float32 := e.top + e.bottom

def add (e f : Edges) : Edges :=
  ⟨e.top + f.top, e.right + f.right, e.bottom + f.bottom, e.left + f.left⟩

instance : Add Edges := ⟨add⟩

end Edges

namespace Rect

def right (r : Rect) : Float32 := r.x + r.width

def bottom (r : Rect) : Float32 := r.y + r.height

def size (r : Rect) : Size := ⟨r.width, r.height⟩

/-- The rectangle holds its edges. -/
def contains (r : Rect) (p : Point) : Bool :=
  r.x ≤ p.x && p.x ≤ r.right && r.y ≤ p.y && p.y ≤ r.bottom

/-- Moves every edge inwards; width and height stop at zero. -/
def insetBy (r : Rect) (e : Edges) : Rect where
  x := r.x + e.left
  y := r.y + e.top
  width := Number.max (r.width - e.left - e.right) 0
  height := Number.max (r.height - e.top - e.bottom) 0

/-- The common part, if it has an inside. -/
def intersection? (r s : Rect) : Option Rect :=
  let x := Number.max r.x s.x
  let y := Number.max r.y s.y
  let right := Number.min r.right s.right
  let bottom := Number.min r.bottom s.bottom
  if x < right ∧ y < bottom then some ⟨x, y, right - x, bottom - y⟩ else none

end Rect

end ContentCard
