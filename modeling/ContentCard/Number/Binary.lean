/-!
Binary floating-point numbers as whole numbers times powers of two.

Every finite value is `± mantissa · 2 ^ exponent`.  Rounding to a whole number, conversion to a
bounded integer and narrowing from binary64 to binary32 are computed on that form, in exact
integers.
-/

namespace ContentCard.Number

/-- The value `± mantissa · 2 ^ exponent`. -/
structure Dyadic where
  negative : Bool
  mantissa : Nat
  exponent : Int
deriving DecidableEq, Repr

namespace Dyadic

/-- The parts of a finite binary32 value. -/
def ofFloat32 (x : Float32) : Dyadic :=
  let bits := x.toBits
  let field := ((bits >>> 23) &&& 0xff).toNat
  let fraction := (bits &&& 0x7fffff).toNat
  let negative := bits >>> 31 == 1
  if field = 0 then ⟨negative, fraction, -149⟩ else ⟨negative, fraction + 0x800000, field - 150⟩

/-- The parts of a finite binary64 value. -/
def ofFloat (x : Float) : Dyadic :=
  let bits := x.toBits
  let field := ((bits >>> 52) &&& 0x7ff).toNat
  let fraction := (bits &&& 0xfffffffffffff).toNat
  let negative := bits >>> 63 == 1
  if field = 0 then ⟨negative, fraction, -1074⟩
  else ⟨negative, fraction + 0x10000000000000, field - 1075⟩

def isWhole (d : Dyadic) : Bool :=
  0 ≤ d.exponent || d.mantissa % Nat.pow 2 d.exponent.natAbs == 0

/-- The magnitude with its fraction cut off. -/
def whole (d : Dyadic) : Nat :=
  if 0 ≤ d.exponent then d.mantissa <<< d.exponent.natAbs else d.mantissa >>> d.exponent.natAbs

/-- The fraction cut off by `whole` is at least one half. -/
def reachesHalf (d : Dyadic) : Bool :=
  d.exponent < 0 && d.mantissa >>> (d.exponent.natAbs - 1) % 2 == 1

def signed (d : Dyadic) (magnitude : Nat) : Int :=
  if d.negative then -(magnitude : Int) else magnitude

def trunc (d : Dyadic) : Int := d.signed d.whole

def floor (d : Dyadic) : Int :=
  d.signed (if d.negative && !d.isWhole then d.whole + 1 else d.whole)

def ceil (d : Dyadic) : Int :=
  d.signed (if d.negative || d.isWhole then d.whole else d.whole + 1)

/-- A half goes away from zero. -/
def round (d : Dyadic) : Int :=
  d.signed (if d.reachesHalf then d.whole + 1 else d.whole)

end Dyadic

/-- Applies a rounding to a whole number.  The sign stays, also on a zero; whole, infinite and
undefined values stay as they are. -/
def roundedBy (rule : Dyadic → Int) (x : Float32) : Float32 :=
  if x.isFinite then
    let d := Dyadic.ofFloat32 x
    if 0 ≤ d.exponent then x
    else
      let y := Float32.ofNat (rule d).natAbs
      if d.negative then -y else y
  else x

def floor (x : Float32) : Float32 := roundedBy Dyadic.floor x

def ceil (x : Float32) : Float32 := roundedBy Dyadic.ceil x

/-- The nearest whole number; a half goes away from zero. -/
def round (x : Float32) : Float32 := roundedBy Dyadic.round x

def trunc (x : Float32) : Float32 := roundedBy Dyadic.trunc x

/-- Cuts off the fraction and clamps to `lo ≤ · ≤ hi`; NaN gives 0. -/
def toIntWithin (lo hi : Int) (x : Float32) : Int :=
  if x.isFinite then max lo (min hi (Dyadic.ofFloat32 x).trunc)
  else if 0 < x then hi
  else if x < 0 then lo
  else 0

def toInt32 (x : Float32) : Int := toIntWithin (-2147483648) 2147483647 x

def toUInt32 (x : Float32) : Nat := (toIntWithin 0 4294967295 x).toNat

def toByte (x : Float32) : UInt8 := UInt8.ofNat (toIntWithin 0 255 x).toNat

/-- Powers of two are products of powers of ten and five, so a dyadic number is a decimal one. -/
def Dyadic.toFloat32 (d : Dyadic) : Float32 :=
  let k := d.exponent.natAbs
  let y :=
    if 0 ≤ d.exponent then Float32.ofScientific (d.mantissa <<< k) false 0
    else Float32.ofScientific (d.mantissa * Nat.pow 5 k) true k
  if d.negative then -y else y

/-- The nearest binary32 value; a tie goes to the even one. -/
def narrow (x : Float) : Float32 :=
  if x.isFinite then (Dyadic.ofFloat x).toFloat32
  else if 0 < x then 1.0 / 0.0
  else if x < 0 then -1.0 / 0.0
  else 0.0 / 0.0

/-- The larger number; NaN gives way to the other one. -/
def max (x y : Float32) : Float32 := if x.isNaN then y else if x < y then y else x

/-- The smaller number; NaN gives way to the other one. -/
def min (x y : Float32) : Float32 := if x.isNaN then y else if y < x then y else x

/-- NaN stays NaN. -/
def clamp (lo hi x : Float32) : Float32 := if x < lo then lo else if hi < x then hi else x

def sum (xs : List Float32) : Float32 := xs.foldl (· + ·) 0.0

end ContentCard.Number
