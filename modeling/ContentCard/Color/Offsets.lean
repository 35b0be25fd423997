import ContentCard.Color

/-!
Colours read at byte offsets.

The digits of a colour are cut out of its text between two offsets, which count bytes.  An offset
inside a character or behind the end is a fault, and so is one behind the offset it comes before.
-/

namespace ContentCard

namespace Text

/-- Two offsets between which a text was to be cut, and could not be. -/
structure CutFault where
  first : Nat
  last : Nat
deriving DecidableEq, Repr

/-- The part of a text between two byte offsets. -/
def cut (s : String) (first last : Nat) : Except CutFault String :=
  let start : String.Pos.Raw := ⟨first⟩
  let stop : String.Pos.Raw := ⟨last⟩
  if first ≤ last ∧ start.IsValid s ∧ stop.IsValid s then .ok (start.extract s stop)
  else .error ⟨first, last⟩

end Text

namespace Color

def withoutPlus : List Char → List Char
  | '+' :: cs => cs
  | cs => cs

/-- The number that digits stand for, the first one counting most. -/
def hexValue (ds : List Nat) : Nat := ds.foldl (fun n d => n * 16 + d) 0

/-- A number of 8 bits in hexadecimal digits; a plus sign may stand before them. -/
def readByte (s : String) : Option UInt8 :=
  let digits := withoutPlus s.toList
  if digits = [] then none
  else
    (digits.mapM hexDigit?).bind fun ds =>
      if hexValue ds < 256 then some (UInt8.ofNat (hexValue ds)) else none

/-- The byte whose digits stand between two offsets. -/
def byteAt (s : String) (first last : Nat) : OptionT (Except Text.CutFault) UInt8 :=
  OptionT.mk ((Text.cut s first last).map readByte)

/-- As many digits as the text has bytes. -/
def colorAt (s : String) : OptionT (Except Text.CutFault) Color :=
  match s.utf8ByteSize with
  | 3 => do
    return ofRgba ⟨(← byteAt s 0 1) * 17, (← byteAt s 1 2) * 17, (← byteAt s 2 3) * 17, 255⟩
  | 6 => do return ofRgba ⟨← byteAt s 0 2, ← byteAt s 2 4, ← byteAt s 4 6, 255⟩
  | 8 => do return ofRgba ⟨← byteAt s 0 2, ← byteAt s 2 4, ← byteAt s 4 6, ← byteAt s 6 8⟩
  | _ => failure

/-- Nothing is cut before every character is known to be a digit. -/
def hexAtOffsets (s : String) : OptionT (Except Text.CutFault) Color :=
  if s.toList.all Char.isHexDigit then colorAt s else failure

def parseAtOffsets (text : String) : Except Text.CutFault (Option Color) :=
  match Text.trimList text.toList with
  | '#' :: digits => (hexAtOffsets (String.ofList digits)).run.map fun c => some (c.getD black)
  | cs => .ok (named? (String.ofList cs))

end Color

end ContentCard
