import ContentCard.Number.Binary
import ContentCard.Text.Blank

/-!
Colours with components between 0 and 1, their 8-bit forms, and the texts that name them.

A text that starts with `#` always names a colour: its 3, 6 or 8 hexadecimal digits, or opaque
black.  Any other text has to be one of the palette's names.
-/

namespace ContentCard

structure Color where
  r : Float32
  g : Float32
  b : Float32
  a : Float32
deriving BEq, Repr, Inhabited

structure Rgba where
  r : UInt8
  g : UInt8
  b : UInt8
  a : UInt8
deriving DecidableEq, Repr, Inhabited

namespace Color

def component (n : UInt8) : Float32 := n.toFloat32 / 255

def ofRgba (c : Rgba) : Color := ⟨component c.r, component c.g, component c.b, component c.a⟩

/-- The low 24 bits, opaque. -/
def ofHex (n : Nat) : Color :=
  ofRgba ⟨UInt8.ofNat (n >>> 16), UInt8.ofNat (n >>> 8), UInt8.ofNat n, 255⟩

def quantize (x : Float32) : UInt8 := Number.toByte (Number.round (Number.clamp 0 1 x * 255))

def toRgba (c : Color) : Rgba := ⟨quantize c.r, quantize c.g, quantize c.b, quantize c.a⟩

def withAlpha (c : Color) (a : Float32) : Color := { c with a := a }

def isTransparent (c : Color) : Bool := c.a ≤ 0

def white : Color := ⟨1, 1, 1, 1⟩

def black : Color := ⟨0, 0, 0, 1⟩

def transparent : Color := ⟨0, 0, 0, 0⟩

def systemBlue : Color := ⟨0, 122 / 255, 1, 1⟩

def palette : List (String × Color) :=
  [("red", ofHex 0xff3b30), ("blue", systemBlue), ("green", ofHex 0x34c759),
    ("yellow", ofHex 0xffcc00), ("gray", ofHex 0x8e8e93), ("grey", ofHex 0x8e8e93),
    ("black", black), ("white", white)]

/-- The palette's colour of a name, in any case of its letters. -/
def named? (name : String) : Option Color := palette.lookup (Text.lower name)

def hexDigit? (c : Char) : Option Nat :=
  if c.isDigit then some (c.toNat - 48)
  else if 'a' ≤ c ∧ c ≤ 'f' then some (c.toNat - 87)
  else if 'A' ≤ c ∧ c ≤ 'F' then some (c.toNat - 55)
  else none

/-- One digit stands for two equal ones; without a fourth pair a colour is opaque. -/
def ofDigits? : List Nat → Option Color
  | [r, g, b] =>
    some (ofRgba ⟨UInt8.ofNat (r * 17), UInt8.ofNat (g * 17), UInt8.ofNat (b * 17), 255⟩)
  | [r, r', g, g', b, b'] =>
    some (ofRgba ⟨UInt8.ofNat (r * 16 + r'), UInt8.ofNat (g * 16 + g'), UInt8.ofNat (b * 16 + b'),
      255⟩)
  | [r, r', g, g', b, b', a, a'] =>
    some (ofRgba ⟨UInt8.ofNat (r * 16 + r'), UInt8.ofNat (g * 16 + g'), UInt8.ofNat (b * 16 + b'),
      UInt8.ofNat (a * 16 + a')⟩)
  | _ => none

def hex? (digits : List Char) : Option Color := (digits.mapM hexDigit?).bind ofDigits?

def parse? (text : String) : Option Color :=
  match Text.trimList text.toList with
  | '#' :: digits => some ((hex? digits).getD black)
  | cs => named? (String.ofList cs)

end Color

end ContentCard
