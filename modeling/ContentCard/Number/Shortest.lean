import ContentCard.Number.Binary

/-!
The fewest decimal digits that read back as the same floating-point value, and their texts.

The reals that round to `mantissa · 2 ^ exponent` form an interval.  For one, two, … digits the
value's two neighbours on that decimal grid are tested against it; the first grid with a hit wins,
and of two hits the nearer one.
-/

namespace ContentCard.Number

/-- A positive value and the ends of the interval that rounds to it, in units of `2 ^ unit`. -/
structure Rounding where
  value : Nat
  lower : Nat
  upper : Nat
  unit : Int
  closed : Bool

/-- Below a power of two the next value is half as far away. -/
def Rounding.ofDyadic (d : Dyadic) (leastExponent : Int) (hiddenBit : Nat) : Rounding :=
  let m := d.mantissa
  let narrowBelow := m = hiddenBit ∧ leastExponent < d.exponent
  { value := 4 * m
    lower := if narrowBelow then 4 * m - 1 else 4 * m - 2
    upper := 4 * m + 2
    unit := d.exponent - 2
    closed := m % 2 = 0 }

namespace Rounding

/-- The numbers to compare instead of `n · 10 ^ k` and `x · 2 ^ unit`. -/
def scaledDecimal (r : Rounding) (n : Nat) (k : Int) : Nat :=
  n * Nat.pow 10 k.toNat * Nat.pow 2 (-r.unit).toNat

def scaledBinary (r : Rounding) (x : Nat) (k : Int) : Nat :=
  x * Nat.pow 2 r.unit.toNat * Nat.pow 10 (-k).toNat

/-- `n · 10 ^ k` reads back as the value. -/
def contains (r : Rounding) (n : Nat) (k : Int) : Bool :=
  let d := r.scaledDecimal n k
  let lo := r.scaledBinary r.lower k
  let hi := r.scaledBinary r.upper k
  if r.closed then lo ≤ d && d ≤ hi else lo < d && d < hi

/-- The largest multiple of `10 ^ k` that is not above the value. -/
def below (r : Rounding) (k : Int) : Nat := r.scaledBinary r.value k / r.scaledDecimal 1 k

/-- The hit on the grid `10 ^ k`, if there is one. -/
def hit? (r : Rounding) (k : Int) : Option Nat :=
  let n := r.below k
  match r.contains n k, r.contains (n + 1) k with
  | true, true =>
    if 2 * r.scaledBinary r.value k ≤ r.scaledDecimal (2 * n + 1) k then some n else some (n + 1)
  | true, false => some n
  | false, true => some (n + 1)
  | false, false => none

/-- The decimal exponent of the value's first digit. -/
def firstExponent (r : Rounding) : Int :=
  let num := r.scaledBinary r.value 0
  let den := r.scaledDecimal 1 0
  let guess : Int := (Nat.toDigits 10 num).length - (Nat.toDigits 10 den).length
  if r.scaledDecimal 1 guess ≤ r.scaledBinary r.value guess then guess else guess - 1

/-- The first grid with a hit, from coarse to fine. -/
def search (r : Rounding) : List Nat → Int → Nat × Int
  | [], k => (r.below k, k)
  | _ :: rest, k =>
    match r.hit? k with
    | some n => (n, k)
    | none => r.search rest (k - 1)

end Rounding

/-- `digits.head · 10 ^ exponent`, with the other digits behind the point. -/
structure Digits where
  digits : List Char
  exponent : Int
deriving DecidableEq, Repr

/-- Drops the zeros that a rounding up to the next power of ten leaves behind. -/
def Digits.ofScaled (n : Nat) (k : Int) : Digits :=
  let all := Nat.toDigits 10 n
  let kept := (all.reverse.dropWhile (· = '0')).reverse
  ⟨kept, k + all.length - 1⟩

def shortest (r : Rounding) : Digits :=
  let (n, k) := r.search (List.range 17) r.firstExponent
  Digits.ofScaled n k

/-- How decimal digits are written out. -/
structure Notation where
  /-- The exponents written without an exponent mark. -/
  positional : Int → Bool
  /-- A whole number is followed by `.0`. -/
  wholeMark : Bool

namespace Digits

def zeros (n : Nat) : List Char := List.replicate n '0'

def positional (d : Digits) (wholeMark : Bool) : List Char :=
  if d.exponent < 0 then '0' :: '.' :: zeros (d.exponent.natAbs - 1) ++ d.digits
  else
    let point := d.exponent.toNat + 1
    let fraction := d.digits.drop point
    let whole := d.digits.take point ++ zeros (point - d.digits.length)
    if fraction ≠ [] then whole ++ '.' :: fraction
    else if wholeMark then whole ++ ['.', '0'] else whole

def scientific (d : Digits) : List Char :=
  let fraction := match d.digits.drop 1 with
    | [] => []
    | cs => '.' :: cs
  let sign := if d.exponent < 0 then '-' else '+'
  d.digits.take 1 ++ fraction ++ 'e' :: sign :: Nat.toDigits 10 d.exponent.natAbs

def text (d : Digits) (style : Notation) : List Char :=
  if style.positional d.exponent then d.positional style.wholeMark else d.scientific

end Digits

def Notation.zero (style : Notation) : String := if style.wholeMark then "0.0" else "0"

def Notation.write (style : Notation) (d : Dyadic) (leastExponent : Int) (hiddenBit : Nat) :
    String :=
  let sign := if d.negative then "-" else ""
  if d.mantissa = 0 then sign ++ style.zero
  else sign ++ String.ofList ((shortest (.ofDyadic d leastExponent hiddenBit)).text style)

/-- The text of a finite binary32 value. -/
def Notation.float32 (style : Notation) (x : Float32) : String :=
  style.write (.ofFloat32 x) (-149) 0x800000

/-- The text of a finite binary64 value. -/
def Notation.float (style : Notation) (x : Float) : String :=
  style.write (.ofFloat x) (-1074) 0x10000000000000

/-- Every digit is written out, and a whole number has no point. -/
def plain : Notation := ⟨fun _ => true, false⟩

/-- The text of any binary32 value, without an exponent. -/
def plainText (x : Float32) : String :=
  if x.isNaN then "NaN"
  else if x.isInf then (if x < 0 then "-inf" else "inf")
  else plain.float32 x

end ContentCard.Number
