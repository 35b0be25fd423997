import ContentCard.Json.Value
import ContentCard.Number.Binary

/-!
The style entries of a node as they were declared.

An entry of the wrong type counts as absent: no text is read as a number and no number as a text.
-/

namespace ContentCard

open Json

structure Declarations where
  entries : Members
deriving BEq, Repr, Inhabited

/-- The whole number that a JSON number is equal to.  One outside 64 bits counts as the end of their
range. -/
def Json.Number.int? : Json.Number → Option Int
  | .natural n => if n.toNat < 0x8000000000000000 then some n.toNat else some 0x7fffffffffffffff
  | .negative n => some n.toInt
  | .real x =>
    let d := Number.Dyadic.ofFloat x
    if x.isFinite && d.isWhole then
      some (max (-0x8000000000000000) (min 0x7fffffffffffffff d.trunc))
    else none

namespace Declarations

def empty : Declarations := ⟨[]⟩

def isEmpty (d : Declarations) : Bool := d.entries.isEmpty

def get? (d : Declarations) (key : String) : Option Value := d.entries.get? key

def number? (d : Declarations) (key : String) : Option Float :=
  (((d.get? key).bind Value.number?).map Json.Number.toFloat).filter Float.isFinite

def float? (d : Declarations) (key : String) : Option Float32 :=
  (d.number? key).map ContentCard.Number.narrow

def int? (d : Declarations) (key : String) : Option Int :=
  ((d.get? key).bind Value.number?).bind Json.Number.int?

def string? (d : Declarations) (key : String) : Option String := (d.get? key).bind Value.string?

def bool? (d : Declarations) (key : String) : Option Bool := (d.get? key).bind Value.bool?

/-- The first key that holds a number. -/
def firstFloat? (d : Declarations) (keys : List String) : Option Float32 := keys.findSome? d.float?

end Declarations

end ContentCard
