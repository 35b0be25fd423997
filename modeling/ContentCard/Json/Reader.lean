import ContentCard.Json.Draft

/-!
Reading a JSON text: the draft's strict readings in the order of the text.

Containers nest at most `maxDepth` deep.  What is skipped is held to its loose readings and nests
as deep as it likes.
-/

namespace ContentCard.Json

def maxDepth : Nat := 127

namespace Draft

mutual

def value (depth : Nat) : Draft → Except Fault Value
  | null => .ok .null
  | bool b => .ok (.bool b)
  | number strict _ => strict.map .number
  | string strict _ => strict.map .string
  | bad f => .error f
  | missing => .error .eof
  | array items stop =>
    match depth with
    | 0 => .error .syntaxError
    | depth + 1 => do
      let items ← values depth items
      match stop with
      | none => .ok (.array items)
      | some s => .error s.cause
  | object members stop =>
    match depth with
    | 0 => .error .syntaxError
    | depth + 1 => do
      let members ← entries depth [] members
      match stop with
      | none => .ok (.object members)
      | some s => .error s.cause

def values (depth : Nat) : List Draft → Except Fault (List Value)
  | [] => .ok []
  | d :: rest => do
    let v ← value depth d
    let vs ← values depth rest
    return v :: vs

/-- A later member of the same key replaces an earlier one. -/
def entries (depth : Nat) (done : Members) : List (Key × Draft) → Except Fault Members
  | [] => .ok done
  | (key, d) :: rest => do
    let k ← key.strict
    let v ← value depth d
    entries depth (done.insert k v) rest

end

mutual

/-- Passes over a value that nobody asked for. -/
def skip : Draft → Except Fault Unit
  | null => .ok ()
  | bool _ => .ok ()
  | number _ loose => loose
  | string _ loose => loose
  | bad f => .error f
  | missing => .error .eof
  | array items stop => do
    skipItems items
    match stop with
    | none => .ok ()
    | some s => .error s.cause
  | object members stop => do
    skipMembers members
    match stop with
    | none => .ok ()
    | some s => .error s.cause

def skipItems : List Draft → Except Fault Unit
  | [] => .ok ()
  | d :: rest => do
    skip d
    skipItems rest

def skipMembers : List (Key × Draft) → Except Fault Unit
  | [] => .ok ()
  | (key, d) :: rest => do
    key.loose
    skip d
    skipMembers rest

end

/-- The complaint of a reader that needed something else here: the value's own fault if it has
one, else its wrong shape. -/
def refuse : Draft → Fault
  | number (.error f) _ => f
  | string (.error f) _ => f
  | bad f => f
  | missing => .eof
  | _ => .data

end Draft

/-- Reads a whole text with the given reader. -/
def readWith (reader : Draft → Except Fault α) (text : Bytes) : Except Fault α := do
  let (draft, more) := Draft.ofTokens (tokens text)
  let result ← reader draft
  if more then .error .syntaxError else return result

def read (text : Bytes) : Except Fault Value := readWith (Draft.value maxDepth) text

def readString (text : String) : Except Fault Value := read text.toUTF8.toList

end ContentCard.Json
