import ContentCard.Geometry
import ContentCard.Style.Keyword

/-!
Pairs of a value for the width and one for the height, and the space a box may take.
-/

namespace ContentCard.Layout

structure Sides (α : Type) where
  width : α
  height : α
deriving BEq, Repr, Inhabited

namespace Sides

def get (s : Sides α) : Axis → α
  | .horizontal => s.width
  | .vertical => s.height

def set (s : Sides α) (axis : Axis) (v : α) : Sides α :=
  match axis with
  | .horizontal => { s with width := v }
  | .vertical => { s with height := v }

/-- The sides along an axis and across it. -/
def along (axis : Axis) (main cross : α) : Sides α :=
  match axis with
  | .horizontal => ⟨main, cross⟩
  | .vertical => ⟨cross, main⟩

def both (v : α) : Sides α := ⟨v, v⟩

def map (f : α → β) (s : Sides α) : Sides β := ⟨f s.width, f s.height⟩

def zipWith (f : α → β → γ) (s : Sides α) (t : Sides β) : Sides γ :=
  ⟨f s.width t.width, f s.height t.height⟩

/-- The first value that is known, side by side. -/
def orElse (s t : Sides (Option α)) : Sides (Option α) := s.zipWith Option.or t

def getD (s : Sides (Option α)) (t : Sides α) : Sides α := s.zipWith Option.getD t

@[simp] theorem get_set (s : Sides α) (axis : Axis) (v : α) : (s.set axis v).get axis = v := by
  cases axis <;> rfl

end Sides

/-- A length that may be unknown. -/
abbrev Known := Option Float32

def noSides : Sides Known := ⟨none, none⟩

/-- At least as large as a bound that may be missing. -/
def atLeast (x : Float32) (bound : Known) : Float32 :=
  match bound with
  | some b => Number.max x b
  | none => x

def Known.atLeast (x bound : Known) : Known := x.map (Layout.atLeast · bound)

/-- With one side known, the aspect ratio gives the other. -/
def applyRatio (ratio : Option Float32) (s : Sides Known) : Sides Known :=
  match ratio, s with
  | some r, ⟨some w, none⟩ => ⟨some w, some (w / r)⟩
  | some r, ⟨none, some h⟩ => ⟨some (h * r), some h⟩
  | _, s => s

/-- The room for a box along an axis: a length, or as little or as much as its content takes. -/
inductive Space
  | definite (v : Float32)
  | minContent
  | maxContent
deriving BEq, Repr, Inhabited

namespace Space

def known : Space → Known
  | definite v => some v
  | _ => none

def mapDefinite (f : Float32 → Float32) : Space → Space
  | definite v => definite (f v)
  | s => s

/-- The definite space of a known length. -/
def ofKnown (k : Known) (otherwise : Space) : Space :=
  match k with
  | some v => definite v
  | none => otherwise

/-- Equal up to the rounding of a sum. -/
def isClose : Space → Space → Bool
  | definite a, definite b => Float32.abs (a - b) < 1.1920929e-7
  | minContent, minContent => true
  | maxContent, maxContent => true
  | _, _ => false

end Space

/-- The sums of opposite edges. -/
def edgeSums (e : Edges) : Sides Float32 := ⟨e.horizontal, e.vertical⟩

/-- The edge at the start of an axis. -/
def leadingEdge (e : Edges) : Axis → Float32
  | .horizontal => e.left
  | .vertical => e.top

end ContentCard.Layout
