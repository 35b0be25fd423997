import ContentCard.Font.Binary
import ContentCard.Font.Path

/-!
The outlines of a font file: simple ones with points of their own, and composite ones made of the
transformed outlines of other glyphs.
-/

namespace ContentCard.Font

structure GlyphTable where
  /-- Where the data of each glyph begins; one more tells the end of the last. -/
  places : Array Nat
  data : Table
deriving Inhabited

namespace GlyphTable

def glyph? (t : GlyphTable) (index : Nat) : Option Table := do
  if index = 65535 then none
  let start ← t.places[index]?
  let stop ← t.places[index + 1]?
  if start < stop then t.data.part? start (stop - start) else none

/-! ## Simple outlines -/

structure Flags where
  bits : Nat
deriving Repr, Inhabited

namespace Flags

def has (f : Flags) (bit : Nat) : Bool := f.bits.testBit bit

def onCurve (f : Flags) : Bool := f.has 0
def xShort (f : Flags) : Bool := f.has 1
def yShort (f : Flags) : Bool := f.has 2
def repeats (f : Flags) : Bool := f.has 3
def xSame (f : Flags) : Bool := f.has 4
def ySame (f : Flags) : Bool := f.has 5

/-- The bytes of a coordinate: one, none, or two. -/
def length (short same : Bool) : Nat := if short then 1 else if same then 0 else 2

def xLength (f : Flags) : Nat := length f.xShort f.xSame
def yLength (f : Flags) : Nat := length f.yShort f.ySame

end Flags

/-- The flags of `left` points from a place on, and the place behind them. -/
def flags? (t : Table) : (left place : Nat) → Option (List Flags × Nat)
  | 0, place => some ([], place)
  | left + 1, place => do
    let f : Flags := ⟨← t.byte? place⟩
    if f.repeats then
      let more ← t.byte? (place + 1)
      if left < more then none
      let (rest, place) ← flags? t (left - more) (place + 2)
      return (List.replicate (more + 1) f ++ rest, place)
    else
      let (rest, place) ← flags? t left (place + 1)
      return (f :: rest, place)
termination_by left => left

/-- Each coordinate is the sum of the steps up to it, in 16 bits. -/
def coordinates (t : Table) (short same : Flags → Bool) (place : Nat) (before : Int) :
    List Flags → List Int
  | [] => []
  | f :: rest =>
    let step : Int :=
      if short f then
        let n : Int := (t.byte? place).getD 0
        if same f then n else -n
      else if same f then 0
      else (t.int16? place).getD 0
    let here := (before + step).bmod 65536
    here :: coordinates t short same (place + Flags.length (short f) (same f)) here rest

/-- Splits points into contours, given the index of the last point of each; the flag says whether
a contour is complete.  The first one has one more point than its index, and each further one has
at least one. -/
def contours (before : Option Nat) : List Nat → List CurvePoint → List (Bool × List CurvePoint)
  | [], _ => []
  | last :: rest, points =>
    let length := match before with
      | none => last + 1
      | some b => max 1 (last - b)
    if points.isEmpty then []
    else (length ≤ points.length, points.take length) ::
      contours (some last) rest (points.drop length)

def coordinate (n : Int) : Float32 := Float32.ofInt n

def simple? (t : Table) (count : Nat) : Option (List Piece) := do
  let ends ← t.words? 10 count
  let last ← ends.back?
  if last = 65535 then none
  if last = 0 then return []
  let instructions ← t.word? (10 + 2 * count)
  let (flags, place) ← flags? t (last + 1) (12 + 2 * count + instructions)
  let yPlace := place + (flags.map Flags.xLength).foldl (· + ·) 0
  let behind := yPlace + (flags.map Flags.yLength).foldl (· + ·) 0
  if t.size < behind then none
  let xs := coordinates t Flags.xShort Flags.xSame place 0 flags
  let ys := coordinates t Flags.yShort Flags.ySame yPlace 0 flags
  let points := (flags.zip (xs.zip ys)).map fun (f, x, y) =>
    (⟨⟨coordinate x, coordinate y⟩, f.onCurve⟩ : CurvePoint)
  return (contours none ends.toList points).flatMap fun (complete, ps) =>
    Tracing.pieces complete {} ps

/-! ## Composite outlines -/

structure Component where
  glyph : Nat
  transform : Transform

/-- A fraction with 14 bits behind the point. -/
def fraction? (t : Table) (place : Nat) : Option Float32 :=
  (t.int16? place).map fun n => Float32.ofInt n / 16384

/-- Where the outlines of a composite stand, up to the last that can be read. -/
def components (t : Table) : (fuel place : Nat) → List Component
  | 0, _ => []
  | fuel + 1, place =>
    let read : Option (Component × Bool × Nat) := do
      let bits : Flags := ⟨← t.word? place⟩
      let glyph ← t.word? (place + 2)
      let place := place + 4
      let (e, f, place) ←
        if bits.has 1 then
          if bits.has 0 then
            pure (Float32.ofInt (← t.int16? place), Float32.ofInt (← t.int16? (place + 2)),
              place + 4)
          else
            pure (Float32.ofInt (← t.int8? place), Float32.ofInt (← t.int8? (place + 1)), place + 2)
        else pure (0, 0, place)
      let (transform, place) ←
        if bits.has 7 then
          pure (({ a := ← fraction? t place
                   b := ← fraction? t (place + 2)
                   c := ← fraction? t (place + 4)
                   d := ← fraction? t (place + 6)
                   e, f } : Transform), place + 8)
        else if bits.has 6 then
          pure ({ a := ← fraction? t place, d := ← fraction? t (place + 2), e, f }, place + 4)
        else if bits.has 3 then
          let scale ← fraction? t place
          pure ({ a := scale, d := scale, e, f }, place + 2)
        else pure ({ e, f }, place)
      return (⟨glyph, transform⟩, bits.has 5, place)
    match read with
    | none => []
    | some (component, more, place) => component :: if more then components t fuel place else []

def transformed (t : Transform) : Piece → Piece
  | .move p => .move (t.apply p)
  | .line p => .line (t.apply p)
  | .quadratic c p => .quadratic (t.apply c) (t.apply p)
  | .close => .close

/-- Composites may be nested this deep. -/
def maxDepth : Nat := 32

/-- The pieces of an outline, and whether all of it could be read.  What can be read before a
damaged part stays. -/
def outline (t : GlyphTable) (transform : Transform) : Nat → Table → List Piece × Bool
  | 0, _ => ([], false)
  | depth + 1, glyph =>
    match glyph.int16? 0 with
    | none => ([], false)
    | some count =>
      if glyph.size < 10 then ([], false)
      else if 0 < count then
        match simple? glyph count.toNat with
        | none => ([], false)
        | some ps => (ps.map (transformed transform), true)
      else if count < 0 then
        (components glyph glyph.size 10).foldl
          (fun (ps, whole) c =>
            match whole, t.glyph? c.glyph with
            | true, some part =>
              let (more, whole) := outline t (transform.after c.transform) depth part
              (ps ++ more, whole)
            | _, _ => (ps, whole))
          ([], true)
      else ([], true)

def pieces (t : GlyphTable) (index : Nat) : List Piece :=
  match t.glyph? index with
  | none => []
  | some glyph => (t.outline {} maxDepth glyph).1

end GlyphTable

end ContentCard.Font
