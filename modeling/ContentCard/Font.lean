import ContentCard.Font.CharMap
import ContentCard.Font.Coverage
import ContentCard.Font.GlyphTable
import ContentCard.Text.Measure

/-!
Fonts read from files: the advance of characters, the height of lines and the pictures of glyphs.

A character that no map of the font knows has the glyph with the index 0.
-/

namespace ContentCard

open Font

/-- A glyph in units of its font. -/
structure Glyph where
  advance : Float32
  outline : Outline
deriving Inhabited

structure Font where
  unitsPerEm : Float32
  ascent : Float32
  lineHeight : Float32
  maps : List CharMap
  glyphs : Array Glyph

/-- A glyph in pixels, by the lower left corner of its mask, the mask row by row from the top, and
the distance to the next glyph. -/
structure GlyphImage where
  left : Int := 0
  bottom : Int := 0
  width : Nat := 0
  height : Nat := 0
  advance : Float32 := 0
  coverage : List UInt8 := []
deriving BEq, Repr, Inhabited

namespace Font

/-! ## Reading -/

/-- The record of a table: its name, start and length. -/
structure Entry where
  tag : Nat
  start : Nat
  length : Nat

/-- The names of tables, as the numbers of their four letters. -/
def tag (s : String) : Nat := s.toList.foldl (fun n c => n * 256 + c.toNat) 0

/-- Why a file is no font. -/
inductive Fault
  | unknownMagic
  | malformed
  | noFace
  | noHead
  | noHhea
  | noMaxp
  | glyphOutOfBounds
deriving DecidableEq, Repr

def Fault.message : Fault → String
  | unknownMagic => "Face data must start with 0x00010000, 0x74727565, 0x4F54544F or 0x74746366."
  | malformed => "An attempt to read out of bounds detected."
  | noFace => "The face index is larger than the number of faces in the font."
  | noHead => "The head table is missing or malformed."
  | noHhea => "The hhea table is missing or malformed."
  | noMaxp => "The maxp table is missing or malformed."
  | glyphOutOfBounds => "Attempted to map a codepoint out of bounds."

def orFault (o : Option α) (f : Fault) : Except Fault α :=
  match o with
  | some a => .ok a
  | none => .error f

def isSingle (magic : Nat) : Bool :=
  magic == 0x00010000 || magic == tag "true" || magic == tag "OTTO"

/-- The start of the record list; a collection leads to its first font. -/
def directory (file : Table) : Except Fault Nat := do
  let magic ← orFault (file.long? 0) .unknownMagic
  if isSingle magic then return 4
  else if magic = tag "ttcf" then
    let count ← orFault (file.long? 8) .malformed
    let _ ← orFault (file.part? 12 (4 * count)) .malformed
    if count = 0 then throw .noFace
    let start ← orFault (file.long? 12) .malformed
    if start < 12 + 4 * count ∨ file.size < start then throw .malformed
    let magic ← orFault (file.long? start) .unknownMagic
    if isSingle magic then return start + 4 else throw .unknownMagic
  else throw .unknownMagic

def entries (file : Table) : Except Fault (List Entry) := do
  let start ← directory file
  let count ← orFault (file.word? start) .malformed
  let records ← orFault (file.part? (start + 8) (16 * count)) .malformed
  return (List.range count).map fun i =>
    { tag := (records.long? (16 * i)).getD 0
      start := (records.long? (16 * i + 8)).getD 0
      length := (records.long? (16 * i + 12)).getD 0 }

/-- The table of a name; of several the last one that lies in the file. -/
def table? (file : Table) (entries : List Entry) (name : String) : Option Table :=
  (entries.filter (·.tag == tag name)).foldl
    (fun found e => (file.part? e.start e.length).or found) none

/-- Advances; the last one holds for all glyphs behind it. -/
def advances? (t : Table) (count : Nat) : Option (Array Nat) :=
  if count = 0 ∨ t.size < 4 * count then none
  else some (Array.ofFn (n := count) fun i => (t.word? (4 * i)).getD 0)

def advanceOf (advances : Option (Array Nat)) (index : Nat) : Float32 :=
  match advances with
  | none => 0
  | some a => Float32.ofNat ((a[index]?.or a.back?).getD 0)

/-- The places of the outlines, in halves unless they are wide. -/
def places (t : Table) (isWide : Bool) (count : Nat) : Array Nat :=
  if isWide then
    Array.ofFn (n := min (count + 1) (t.size / 4)) fun i => (t.long? (4 * i)).getD 0
  else
    Array.ofFn (n := min (count + 1) (t.size / 2)) fun i => (t.word? (2 * i)).getD 0 * 2

/-- Curves are drawn exactly up to this many pixels to the em. -/
def drawnSize : Float32 := 40

def tolerance (unitsPerEm : Float32) : Float32 := 3 * 2 * (unitsPerEm / drawnSize)

/-- The size of the em, and whether the places of outlines are wide. -/
def head? (t : Table) : Option (Nat × Bool) := do
  if t.size < 54 then none
  let unitsPerEm ← t.word? 18
  let format ← t.word? 50
  if 1 < format ∨ unitsPerEm < 16 ∨ 16384 < unitsPerEm then none
  return (unitsPerEm, format == 1)

/-- Ascent, descent and gap of a line, and the number of advances. -/
def hhea? (t : Table) : Option (Int × Int × Int × Nat) := do
  return (← t.int16? 4, ← t.int16? 6, ← t.int16? 8, ← t.word? 34)

/-- The number of glyphs. -/
def maxp? (t : Table) : Option Nat := do
  let version ← t.long? 0
  let count ← t.word? 4
  if ¬(version = 0x00005000 ∨ version = 0x00010000) ∨ count = 0 then none
  return count

/-- Reads a font file.  It has to have a header, line heights and the number of its glyphs, and its
maps may only lead to those. -/
def read (bytes : List UInt8) : Except Fault Font := do
  let file : Table := bytes.toArray
  let entries ← entries file
  let table? := table? file entries
  let (unitsPerEm, isWide) ← orFault ((table? "head").bind head?) .noHead
  let (ascent, descent, gap, metricCount) ← orFault ((table? "hhea").bind hhea?) .noHhea
  let count ← orFault ((table? "maxp").bind maxp?) .noMaxp
  let advances := (table? "hmtx").bind (advances? · metricCount)
  let outlines : GlyphTable :=
    match table? "loca", table? "glyf" with
    | some loca, some data => ⟨places loca isWide count, data⟩
    | _, _ => ⟨#[], #[]⟩
  let maps := ((table? "cmap").bind CharMap.readAll?).getD []
  if maps.any fun m => m.glyphs.any (count ≤ ·) then throw .glyphOutOfBounds
  let em := Float32.ofNat unitsPerEm
  let glyph (i : Nat) : Glyph :=
    ⟨advanceOf advances i, .ofEdges (edges (tolerance em) ⟨0, 0⟩ ⟨0, 0⟩ (outlines.pieces i))⟩
  return {
    unitsPerEm := em
    ascent := Float32.ofInt ascent
    lineHeight := Float32.ofInt (ascent - descent + gap)
    maps
    glyphs := Array.ofFn (n := count) fun i => glyph i }

/-! ## Sizes -/

def scale (f : Font) (size : Float32) : Float32 := size / f.unitsPerEm

def lineHeightAt (f : Font) (size : Float32) : Float32 := f.lineHeight * f.scale size

def ascentAt (f : Font) (size : Float32) : Float32 := f.ascent * f.scale size

def glyph (f : Font) (c : Char) : Glyph := f.glyphs.getD (CharMap.find f.maps c.toNat) default

def advance (f : Font) (size : Float32) (c : Char) : Float32 := f.scale size * (f.glyph c).advance

/-- Widths and line heights are rounded up to whole pixels; the weight changes nothing. -/
def measure (f : Font) : Measurer := fun text size _ =>
  let lines := Text.paragraphs text.toList
  { width := Number.ceil (Text.widest (fun line => Number.sum (line.map (f.advance size))) lines)
    height := Float32.ofNat lines.length * Number.ceil (f.lineHeightAt size) }

/-! ## Pictures of glyphs -/

def upToOne (x : Float32) : Float32 := if Sheet.isNegative x then x + 1 else x

/-- The mask of a glyph.  Its pixels are those of the line it stands on. -/
def render (f : Font) (c : Char) (size : Float32) : GlyphImage :=
  if size ≤ 0 then {}
  else
    let glyph := f.glyph c
    let scale := f.scale size
    let box := glyph.outline.box
    let left := box.left * scale
    let bottom := box.bottom * scale
    let width := box.width * scale
    let height := box.height * scale
    let dx := upToOne (Sheet.fraction left)
    let dy := upToOne (Sheet.fraction (1 - Sheet.fraction height - Sheet.fraction bottom))
    let columns := (Number.toInt32 (Number.ceil (width + dx))).toNat
    let rows := (Number.toInt32 (Number.ceil (height + dy))).toNat
    { left := Number.toInt32 (Number.floor left)
      bottom := Number.toInt32 (Number.floor bottom)
      width := columns
      height := rows
      advance := scale * glyph.advance
      coverage := ((Sheet.blank columns rows).draw ⟨scale, dx, dy⟩ glyph.outline).coverage }

end Font

end ContentCard
