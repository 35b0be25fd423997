import ContentCard.Picture
import ContentCard.Png.Checksum
import ContentCard.Png.Deflate

/-!
Pictures as files of chunks with checksums.

Written files have four bytes a pixel.  Files are read with eight bits a channel, grey or coloured,
with or without alpha, and with any filters.
-/

namespace ContentCard.Png

def signature : List UInt8 := [0x89, 0x50, 0x4e, 0x47, 0x0d, 0x0a, 0x1a, 0x0a]

/-- A number in four bytes, the high one first. -/
def long (n : Nat) : List UInt8 :=
  [UInt8.ofNat (n >>> 24), UInt8.ofNat (n >>> 16), UInt8.ofNat (n >>> 8), UInt8.ofNat n]

/-! ## Writing -/

def chunk (kind : String) (data : List UInt8) : List UInt8 :=
  let body := kind.toUTF8.toList ++ data
  long data.length ++ body ++ long (crc body).toNat

/-- A row without a filter. -/
def rowBytes (row : List Rgba) : List UInt8 := 0 :: row.flatMap fun c => [c.r, c.g, c.b, c.a]

def encode (p : Picture) : List UInt8 :=
  let data := p.rows.flatMap rowBytes
  signature ++ chunk "IHDR" (long p.width ++ long p.height ++ [8, 6, 0, 0, 0]) ++
    chunk "IDAT" ([0x78, 0x01] ++ Deflate.stored data ++ long (adler data).toNat) ++ chunk "IEND" []

/-! ## Chunks -/

structure Chunk where
  kind : List UInt8
  data : List UInt8

def Chunk.isNamed (c : Chunk) (name : String) : Bool := c.kind == name.toUTF8.toList

def number (bytes : List UInt8) : Nat := bytes.foldl (fun n b => n * 256 + b.toNat) 0

/-- The first chunk of a text, and what follows it. -/
def splitChunk? (bytes : List UInt8) : Option (Chunk × List UInt8) :=
  let length := number (bytes.take 4)
  let body := (bytes.drop 4).take (4 + length)
  let rest := bytes.drop (8 + length)
  if rest.length < 4 then none
  else if crc body = UInt32.ofNat (number (rest.take 4)) then
    some (⟨body.take 4, body.drop 4⟩, rest.drop 4)
  else none

/-- The chunks up to the end mark. -/
def chunks? : Nat → List UInt8 → Option (List Chunk)
  | 0, _ => none
  | fuel + 1, bytes => do
    let (c, rest) ← splitChunk? bytes
    if c.isNamed "IEND" then return [] else return c :: (← chunks? fuel rest)

/-! ## Pixels -/

inductive Channels
  | grey
  | color
  | greyAlpha
  | colorAlpha
deriving DecidableEq, Repr

namespace Channels

def ofNumber? : Nat → Option Channels
  | 0 => some grey
  | 2 => some color
  | 4 => some greyAlpha
  | 6 => some colorAlpha
  | _ => none

/-- The bytes of a pixel. -/
def count : Channels → Nat
  | grey => 1
  | color => 3
  | greyAlpha => 2
  | colorAlpha => 4

/-- The pixel whose bytes are given by their numbers. -/
def pixel (channels : Channels) (byte : Nat → UInt8) : Rgba :=
  match channels with
  | grey => ⟨byte 0, byte 0, byte 0, 255⟩
  | color => ⟨byte 0, byte 1, byte 2, 255⟩
  | greyAlpha => ⟨byte 0, byte 0, byte 0, byte 1⟩
  | colorAlpha => ⟨byte 0, byte 1, byte 2, byte 3⟩

end Channels

structure Header where
  width : Nat
  height : Nat
  channels : Channels

def Header.ofChunk? (c : Chunk) : Option Header := do
  let width := number (c.data.take 4)
  let height := number ((c.data.drop 4).take 4)
  if !c.isNamed "IHDR" || width = 0 || height = 0 then none
  else
    match c.data.drop 8 with
    | [8, channels, 0, 0, 0] => return ⟨width, height, ← Channels.ofNumber? channels.toNat⟩
    | _ => none

/-- Of the bytes to the left, above and above to the left, the one next to their plane. -/
def paeth (left above corner : Nat) : Nat :=
  let plane : Int := (left : Int) + above - corner
  let far (n : Nat) : Nat := (plane - n).natAbs
  if far left ≤ far above ∧ far left ≤ far corner then left
  else if far above ≤ far corner then above
  else corner

/-- What a filter expects of a byte. -/
def expected? (filter : UInt8) (left above corner : Nat) : Option Nat :=
  match filter.toNat with
  | 0 => some 0
  | 1 => some left
  | 2 => some above
  | 3 => some ((left + above) / 2)
  | 4 => some (paeth left above corner)
  | _ => none

/-- A row from its differences and the row above it. -/
def unfiltered? (step : Nat) (filter : UInt8) (above row : Array UInt8) : Option (Array UInt8) :=
  let add (done : Array UInt8) (b : UInt8) : Option (Array UInt8) := do
    let i := done.size
    let back (bytes : Array UInt8) (k : Nat) : Nat :=
      if k ≤ i then (bytes.getD (i - k) 0).toNat else 0
    let e ← expected? filter (back done step) (back above 0) (back above step)
    return done.push (b + UInt8.ofNat e)
  row.foldlM add #[]

/-- The rows of bytes, each after its filter. -/
def rows? (h : Header) (data : Array UInt8) : Option (Array UInt8) :=
  let length := h.width * h.channels.count
  let row (state : Array UInt8 × Array UInt8) (y : Nat) : Option (Array UInt8 × Array UInt8) := do
    let start := y * (length + 1)
    let next ← unfiltered? h.channels.count (← data[start]?) state.1
      (data.extract (start + 1) (start + 1 + length))
    return (next, state.2 ++ next)
  if data.size < h.height * (length + 1) then none
  else ((List.range h.height).foldlM row (#[], #[])).map Prod.snd

def picture (h : Header) (bytes : Array UInt8) : Picture where
  width := h.width
  height := h.height
  pixels := Array.ofFn (n := h.width * h.height) fun i =>
    h.channels.pixel fun k => bytes.getD (i.val * h.channels.count + k) 0
  size_pixels := by simp

/-- The compressed data after its two bytes of settings. -/
def compressed? (data : List UInt8) : Option (List UInt8) :=
  match data with
  | settings :: check :: rest =>
    let head := settings.toNat * 256 + check.toNat
    if settings.toNat % 16 = 8 ∧ head % 31 = 0 ∧ check.toNat / 32 % 2 = 0 then some rest else none
  | _ => none

/-- The picture of a file. -/
def decode? (bytes : List UInt8) : Option Picture := do
  if bytes.take 8 ≠ signature then none
  else
    match ← chunks? bytes.length (bytes.drop 8) with
    | [] => none
    | first :: rest =>
      let h ← Header.ofChunk? first
      let data := (rest.filter (·.isNamed "IDAT")).flatMap Chunk.data
      let bytes ← rows? h (← Deflate.inflate (← compressed? data).toArray)
      return picture h bytes

end ContentCard.Png
