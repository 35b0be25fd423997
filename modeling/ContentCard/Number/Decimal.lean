import ContentCard.Number.Binary

/-!
Decimal text read as the nearest binary32 value.

A number is an optional sign, digits with an optional point, and an optional exponent; at least one
digit stands in front of the exponent.  `inf`, `infinity` and `nan` are read in any case.
-/

namespace ContentCard.Number

/-- The value `digits · 10 ^ exponent`. -/
structure Decimal where
  digits : Nat
  exponent : Int
deriving DecidableEq, Repr

inductive DecimalFault
  | empty
  | invalid
deriving DecidableEq, Repr

def DecimalFault.message : DecimalFault → String
  | .empty => "cannot parse float from empty string"
  | .invalid => "invalid float literal"

/-- The value of a run of digits. -/
def digitsValue (digits : List Char) : Nat :=
  digits.foldl (fun n c => n * 10 + (c.toNat - 48)) 0

namespace Decimal

/-- The exponent text after its mark: a sign and at least one digit. -/
def exponent? (text : List Char) : Option Int :=
  let digits? (cs : List Char) : Option Nat :=
    if cs ≠ [] ∧ cs.all Char.isDigit then some (digitsValue cs) else none
  match text with
  | '+' :: cs => (digits? cs).map Int.ofNat
  | '-' :: cs => (digits? cs).map fun n => -(n : Int)
  | cs => (digits? cs).map Int.ofNat

/-- Digits, an optional point with more digits, and an optional exponent. -/
def ofText? (text : List Char) : Option Decimal :=
  let whole := text.takeWhile Char.isDigit
  let rest := text.dropWhile Char.isDigit
  let (fraction, tail) := match rest with
    | '.' :: cs => (cs.takeWhile Char.isDigit, cs.dropWhile Char.isDigit)
    | cs => ([], cs)
  if whole = [] ∧ fraction = [] then none
  else
    let scaled (e : Int) : Decimal := ⟨digitsValue (whole ++ fraction), e - fraction.length⟩
    match tail with
    | [] => some (scaled 0)
    | mark :: cs => if mark = 'e' ∨ mark = 'E' then (exponent? cs).map scaled else none

/-- The nearest binary32 value.  Outside ten to the ±60 it is infinite or zero, whatever the
digits are. -/
def toFloat32 (d : Decimal) : Float32 :=
  if d.digits = 0 then 0
  else
    let magnitude := d.exponent + (Nat.toDigits 10 d.digits).length
    if 60 < magnitude then 1.0 / 0.0
    else if magnitude < -60 then 0
    else Float32.ofScientific d.digits (d.exponent < 0) d.exponent.natAbs

end Decimal

def unsignedFloat32? (text : List Char) : Option Float32 :=
  let word := text.map Char.toLower
  if word = "inf".toList ∨ word = "infinity".toList then some (1.0 / 0.0)
  else if word = "nan".toList then some (0.0 / 0.0)
  else (Decimal.ofText? text).map Decimal.toFloat32

def readFloat32 (text : String) : Except DecimalFault Float32 :=
  let unsigned (cs : List Char) : Except DecimalFault Float32 :=
    match unsignedFloat32? cs with
    | some x => .ok x
    | none => .error .invalid
  match text.toList with
  | [] => .error .empty
  | '+' :: cs => unsigned cs
  | '-' :: cs => (unsigned cs).map fun x => -x
  | cs => unsigned cs

def float32? (text : String) : Option Float32 := (readFloat32 text).toOption

end ContentCard.Number
