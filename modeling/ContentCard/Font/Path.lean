import ContentCard.Geometry

/-!
Outlines: closed contours of points on and off a curve, as paths of lines and quadratic curves.

Between two points off the curve, their middle is on it.
-/

namespace ContentCard.Font

structure CurvePoint where
  point : Point
  onCurve : Bool
deriving BEq, Repr, Inhabited

/-- A piece of a path, from where the one before it ended. -/
inductive Piece
  | move (target : Point)
  | line (target : Point)
  | quadratic (control target : Point)
  | close
deriving BEq, Repr

/-- A straight piece of an outline. -/
structure Edge where
  start : Point
  stop : Point
deriving BEq, Repr, Inhabited

/-- Scaling, shearing and moving of points. -/
structure Transform where
  a : Float32 := 1
  b : Float32 := 0
  c : Float32 := 0
  d : Float32 := 1
  e : Float32 := 0
  f : Float32 := 0
deriving BEq, Repr

namespace Transform

def apply (t : Transform) (p : Point) : Point :=
  if t == {} then p else ⟨t.a * p.x + t.c * p.y + t.e, t.b * p.x + t.d * p.y + t.f⟩

/-- First `u`, then `t`. -/
def after (t u : Transform) : Transform where
  a := t.a * u.a + t.c * u.b
  b := t.b * u.a + t.d * u.b
  c := t.a * u.c + t.c * u.d
  d := t.b * u.c + t.d * u.d
  e := t.a * u.e + t.c * u.f + t.e
  f := t.b * u.e + t.d * u.f + t.f

end Transform

def middle (p q : Point) : Point := ⟨0.5 * p.x + 0.5 * q.x, 0.5 * p.y + 0.5 * q.y⟩

/-- A contour that is being read: its first points on and off the curve, and a point off the curve
that waits for the end of its piece. -/
structure Tracing where
  firstOn : Option Point := none
  firstOff : Option Point := none
  lastOff : Option Point := none

namespace Tracing

def add (t : Tracing) (p : CurvePoint) : List Piece × Tracing :=
  let q := p.point
  match t.firstOn, p.onCurve with
  | none, true => ([.move q], { t with firstOn := some q })
  | none, false =>
    match t.firstOff with
    | none => ([], { t with firstOff := some q })
    | some off =>
      let m := middle off q
      ([.move m], { t with firstOn := some m, lastOff := some q })
  | some _, true =>
    match t.lastOff with
    | some off => ([.quadratic off q], { t with lastOff := none })
    | none => ([.line q], t)
  | some _, false =>
    match t.lastOff with
    | some off => ([.quadratic off (middle off q)], { t with lastOff := some q })
    | none => ([], { t with lastOff := some q })

def finish (t : Tracing) : List Piece :=
  let between := match t.firstOff, t.lastOff with
    | some first, some last => [Piece.quadratic last (middle last first)]
    | _, _ => []
  let home := match t.firstOn, t.firstOff, t.lastOff with
    | some p, some off, _ => [Piece.quadratic off p]
    | some p, none, some off => [.quadratic off p]
    | some p, none, none => [.line p]
    | none, _, _ => []
  between ++ home ++ [.close]

/-- The pieces of a contour; one whose points do not all follow stays open. -/
def pieces (complete : Bool) : Tracing → List CurvePoint → List Piece
  | t, [] => if complete then t.finish else []
  | t, p :: rest =>
    let (ps, t) := t.add p
    ps ++ pieces complete t rest

end Tracing

/-! ## Straight edges -/

def quadraticAt (a b c : Point) (t : Float32) : Point :=
  let s := 1 - t
  let u := s * s
  let v := 2 * s * t
  let w := t * t
  ⟨u * a.x + v * b.x + w * c.x, u * a.y + v * b.y + w * c.y⟩

/-- Curves are halved until a chord leaves out no more than `tolerance`, twice the area of a
triangle.  The edges come from the end of the curve to its start. -/
def flatten (tolerance : Float32) (curve : Float32 → Point) :
    Nat → (start : Point) → Float32 → (stop : Point) → Float32 → List Edge
  | 0, p, _, q, _ => [⟨p, q⟩]
  | n + 1, p, s, q, t =>
    let m := (s + t) * 0.5
    let b := curve m
    let area := (b.x - p.x) * (q.y - p.y) - (q.x - p.x) * (b.y - p.y)
    if tolerance < Float32.abs area then
      flatten tolerance curve n b m q t ++ flatten tolerance curve n p s b m
    else [⟨p, q⟩]

/-- The edges of a path; `home` is where its contour started. -/
def edges (tolerance : Float32) : (home pen : Point) → List Piece → List Edge
  | _, _, [] => []
  | home, pen, piece :: rest =>
    match piece with
    | .move q => edges tolerance q q rest
    | .line q => ⟨pen, q⟩ :: edges tolerance home q rest
    | .quadratic c q =>
      flatten tolerance (quadraticAt pen c q) 32 pen 0 q 1 ++ edges tolerance home q rest
    | .close =>
      if pen == home then edges tolerance home home rest
      else ⟨pen, home⟩ :: edges tolerance home home rest

end ContentCard.Font
