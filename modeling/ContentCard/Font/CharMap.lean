import ContentCard.Font.Binary

/-!
The map from characters to glyphs: segments of neighbouring code points, ordered by their ends.
-/

namespace ContentCard.Font

structure Segment where
  first : Nat
  last : Nat
  delta : Nat
  /-- Zero, or the distance from `place` to the glyph of the first code point. -/
  offset : Nat
  /-- Where the offset stands in the table. -/
  place : Nat
deriving Repr, Inhabited

structure CharMap where
  table : Table
  segments : Array Segment
deriving Inhabited

namespace CharMap

/-- Sums of 16 bits. -/
def wrap (n : Nat) : Nat := n % 65536

/-- A segment either shifts its code points or looks them up; zero stands for no glyph. -/
def glyphIn? (m : CharMap) (s : Segment) (code : Nat) : Option Nat :=
  if s.offset = 0 then some (wrap (code + s.delta))
  else if s.offset = 65535 then none
  else
    let step := (code - s.first) * 2
    if 65535 < step then none
    else
      match m.table.word? (wrap (s.place + step + s.offset)) with
      | none | some 0 => none
      | some n =>
        let glyph := wrap (n + s.delta)
        if glyph < 32768 then some glyph else none

/-- Halves the range of segments that may hold a code point. -/
def search (m : CharMap) (code lo hi : Nat) : Option Nat :=
  if h : lo < hi then
    let mid := (lo + hi) / 2
    let s := m.segments.getD mid default
    if s.last < code then m.search code (mid + 1) hi
    else if code < s.first then m.search code lo mid
    else m.glyphIn? s code
  else none
termination_by hi - lo

/-- The segments up to the mark of the end. -/
def listed (m : CharMap) : List Segment :=
  m.segments.toList.takeWhile fun s => !(s.first == 65535 && s.last == 65535)

/-- The glyph of a code point; the glyph for missing characters is no answer. -/
def glyph? (m : CharMap) (code : Nat) : Option Nat :=
  if m.listed.any fun s => s.first ≤ code && code ≤ s.last then
    (m.search code 0 m.segments.size).filter (· != 0)
  else none

/-- All glyphs that code points stand for. -/
def glyphs (m : CharMap) : List Nat :=
  m.listed.flatMap fun s => (List.range' s.first (s.last + 1 - s.first)).filterMap m.glyph?

/-- Reads a map of segments. -/
def read? (t : Table) : Option CharMap := do
  let twice ← t.word? 6
  if twice < 2 then none
  let count := twice / 2
  let lasts ← t.words? 14 count
  let firsts ← t.words? (16 + 2 * count) count
  let deltas ← t.words? (16 + 4 * count) count
  let offsets ← t.words? (16 + 6 * count) count
  return {
    table := t
    segments := Array.ofFn (n := count) fun i =>
      { first := firsts.getD i 0
        last := lasts.getD i 0
        delta := deltas.getD i 0
        offset := offsets.getD i 0
        place := 16 + 6 * count + 2 * i } }

/-- The maps of a table up to the first that is not made of segments. -/
def readAll? (t : Table) : Option (List CharMap) := do
  let count ← t.word? 2
  let _ ← t.part? 4 (8 * count)
  let maps := (List.range count).map fun i => do
    let start ← t.long? (8 + 8 * i)
    let map : Table := t.extract start t.size
    if start ≤ t.size && map.word? 0 == some 4 then read? map else none
  return (maps.takeWhile Option.isSome).filterMap id

/-- Of several maps the last one that knows the code point counts. -/
def find (maps : List CharMap) (code : Nat) : Nat :=
  maps.foldl (fun found m => (m.glyph? code).getD found) 0

end CharMap

end ContentCard.Font
