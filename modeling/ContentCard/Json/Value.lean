/-!
JSON values as they are read: a number keeps its kind, and an object holds its members in the
order of their keys, each key once.
-/

namespace ContentCard.Json

/-- A whole number that fits 64 bits stays one; a `negative` is below zero. -/
inductive Number
  | natural (n : UInt64)
  | negative (n : Int64)
  | real (x : Float)
deriving BEq, Repr

inductive Value
  | null
  | bool (b : Bool)
  | number (n : Number)
  | string (s : String)
  | array (items : List Value)
  | object (members : List (String × Value))
deriving BEq, Repr, Inhabited

abbrev Members := List (String × Value)

inductive Kind
  | null
  | bool
  | number
  | string
  | array
  | object
deriving DecidableEq, Repr

def Kind.name : Kind → String
  | .null => "null"
  | .bool => "bool"
  | .number => "number"
  | .string => "string"
  | .array => "array"
  | .object => "object"

def Number.toFloat : Number → Float
  | .natural n => n.toFloat
  | .negative n => -(Float.ofNat n.toInt.natAbs)
  | .real x => x

namespace Value

def kind : Value → Kind
  | null => .null
  | bool _ => .bool
  | number _ => .number
  | string _ => .string
  | array _ => .array
  | object _ => .object

def bool? : Value → Option Bool
  | bool b => some b
  | _ => none

def number? : Value → Option Number
  | number n => some n
  | _ => none

def string? : Value → Option String
  | string s => some s
  | _ => none

def object? : Value → Option Members
  | object members => some members
  | _ => none

end Value

namespace Members

def get? (members : Members) (key : String) : Option Value := members.lookup key

/-- Puts a member in its place; an older value of the same key is replaced. -/
def insert (members : Members) (key : String) (value : Value) : Members :=
  match members with
  | [] => [(key, value)]
  | (k, v) :: rest =>
    if key = k then (key, value) :: rest
    else if key < k then (key, value) :: (k, v) :: rest
    else (k, v) :: insert rest key value

def string? (members : Members) (key : String) : Option String :=
  (members.get? key).bind Value.string?

end Members

end ContentCard.Json
