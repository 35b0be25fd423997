import ContentCard.Json.Reader
import ContentCard.Number.Binary

/-!
Records read from JSON: an object with the fields' names as keys, or an array with their values in
order.

Unknown keys are passed over and no field may come twice.  A reader meets faults in the order of
the text: the second key of a field is refused before its value is looked at.
-/

namespace ContentCard.Json

/-- A field of a record: its key, and how its value changes the record. -/
structure RecordField (α : Type) where
  name : String
  /-- A record without this field is refused. -/
  required : Bool
  read : Draft → Except Fault (α → α)

namespace Draft

def readItems (stop : Option Stop) (record : α) : List (RecordField α) → List Draft → Except Fault α
  | [], [] =>
    match stop with
    | none => .ok record
    | some s => .error s.cause
  | [], _ :: _ => .error .syntaxError
  | field :: fields, [] =>
    match stop with
    | none => if (field :: fields).any RecordField.required then .error .data else .ok record
    | some s => .error s.cause
  | field :: fields, d :: rest => do
    let put ← field.read d
    readItems stop (put record) fields rest

def readMembers (fields : List (RecordField α))
    (stop : Option Stop) (seen : List String) (record : α) :
    List (Key × Draft) → Except Fault α
  | [] =>
    match stop with
    | none =>
      if fields.any fun f => f.required && !seen.contains f.name then .error .data else .ok record
    | some s => .error s.cause
  | (key, d) :: rest => do
    let name ← key.strict
    match fields.find? (·.name = name) with
    | none => do
      d.skip
      readMembers fields stop seen record rest
    | some field =>
      if seen.contains name then .error .data
      else do
        let put ← field.read d
        readMembers fields stop (name :: seen) (put record) rest

def record (fields : List (RecordField α)) (start : α) : Draft → Except Fault α
  | array items stop => readItems stop start fields items
  | object members stop => readMembers fields stop [] start members
  | d => .error d.refuse

/-- A number of any kind as binary32; a whole number is rounded once. -/
def float32 : Draft → Except Fault Float32
  | number strict _ => strict.map fun n =>
    match n with
    | .natural n => Float32.ofNat n.toNat
    | .negative n => Float32.ofInt n.toInt
    | .real x => ContentCard.Number.narrow x
  | d => .error d.refuse

def text : Draft → Except Fault String
  | string strict _ => strict
  | d => .error d.refuse

/-- The fault of what stands in place of a key. -/
def refuseKey : Option Token → Fault
  | none => .eof
  | some (.number (.error f) _) => f
  | some (.bad f) => f
  | some .null | some (.bool _) | some (.number ..) | some .openBrace | some .openBracket => .data
  | some _ => .syntaxError

/-- A keyword as a string, or as the only key of an object with the value `null`. -/
def choice (parse : String → Option α) : Draft → Except Fault α
  | string strict _ => do
    let s ← strict
    match parse s with
    | some a => .ok a
    | none => .error .data
  | object [] (some (.key found)) => .error (refuseKey found)
  | object [] (some (.fault f)) => .error f
  | object ((key, d) :: rest) stop => do
    let s ← key.strict
    match parse s, d with
    | none, _ => .error .data
    | some a, null =>
      match rest, stop with
      | [], none => .ok a
      | [], some (.fault f) => .error f
      | _, _ => .error .syntaxError
    | some _, d => .error d.refuse
  | missing => .error .eof
  | _ => .error .syntaxError

end Draft

end ContentCard.Json
