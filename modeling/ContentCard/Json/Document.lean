import ContentCard.Json.Value
import ContentCard.Number.Shortest

/-!
JSON documents as they are written.

Members keep the order in which they are given.  Binary32 numbers have their own shortest digits;
a number that is not finite is written as `null`.
-/

namespace ContentCard.Json

inductive Document
  | null
  | bool (b : Bool)
  | integer (n : Int)
  | single (x : Float32)
  | double (x : Float)
  | string (s : String)
  | array (items : List Document)
  | object (members : List (String × Document))
deriving Inhabited

/-- A point stands in a number from 10⁻⁶ to 10¹², an exponent elsewhere. -/
def singleNotation : Number.Notation := ⟨fun e => -6 ≤ e ∧ e ≤ 12, true⟩

/-- A point stands in a number from 10⁻⁵ to 10¹⁵, an exponent elsewhere. -/
def doubleNotation : Number.Notation := ⟨fun e => -5 ≤ e ∧ e ≤ 15, true⟩

def hexDigit (n : Nat) : Char := (Nat.digitChar n)

/-- A character inside quotes; control characters and the two marks of the notation are escaped. -/
def escapeChar (c : Char) : List Char :=
  if c = '"' then ['\\', '"']
  else if c = '\\' then ['\\', '\\']
  else if c.toNat = 8 then ['\\', 'b']
  else if c = '\t' then ['\\', 't']
  else if c = '\n' then ['\\', 'n']
  else if c.toNat = 12 then ['\\', 'f']
  else if c = '\r' then ['\\', 'r']
  else if c.toNat < 32 then ['\\', 'u', '0', '0', hexDigit (c.toNat / 16), hexDigit (c.toNat % 16)]
  else [c]

def quoted (s : String) : String := "\"" ++ String.ofList (s.toList.flatMap escapeChar) ++ "\""

/-- Puts a line break and the indent of a depth in front of each part, for indented documents. -/
def lineBreak (depth : Nat) : String := "\n" ++ "".pushn ' ' (2 * depth)

namespace Document

def scalarText : Document → String
  | bool b => if b then "true" else "false"
  | integer n => toString n
  | single x => if x.isFinite then singleNotation.float32 x else "null"
  | double x => if x.isFinite then doubleNotation.float x else "null"
  | string s => quoted s
  | _ => "null"

mutual

/-- Appends a document without spaces. -/
def write (out : String) : Document → String
  | array items => (writeItems (out ++ "[") true items) ++ "]"
  | object members => (writeMembers (out ++ "\x7b") true members) ++ "\x7d"
  | d => out ++ d.scalarText

def writeItems (out : String) (first : Bool) : List Document → String
  | [] => out
  | d :: rest => writeItems (write (if first then out else out ++ ",") d) false rest

def writeMembers (out : String) (first : Bool) : List (String × Document) → String
  | [] => out
  | (k, d) :: rest =>
    let out := (if first then out else out ++ ",") ++ quoted k ++ ":"
    writeMembers (write out d) false rest

end

mutual

/-- Appends a document with one item or member a line. -/
def writeIndented (depth : Nat) (out : String) : Document → String
  | array [] => out ++ "[]"
  | array (d :: rest) =>
    writeItemsIndented (depth + 1) (out ++ "[") true (d :: rest) ++ lineBreak depth ++ "]"
  | object [] => out ++ "\x7b\x7d"
  | object (m :: rest) =>
    writeMembersIndented (depth + 1) (out ++ "\x7b") true (m :: rest) ++ lineBreak depth ++ "\x7d"
  | d => out ++ d.scalarText

def writeItemsIndented (depth : Nat) (out : String) (first : Bool) : List Document → String
  | [] => out
  | d :: rest =>
    let out := (if first then out else out ++ ",") ++ lineBreak depth
    writeItemsIndented depth (writeIndented depth out d) false rest

def writeMembersIndented (depth : Nat) (out : String) (first : Bool) :
    List (String × Document) → String
  | [] => out
  | (k, d) :: rest =>
    let out := (if first then out else out ++ ",") ++ lineBreak depth ++ quoted k ++ ": "
    writeMembersIndented depth (writeIndented depth out d) false rest

end

def text (d : Document) : String := d.write ""

def indentedText (d : Document) : String := d.writeIndented 0 ""

def option (f : α → Document) : Option α → Document
  | none => null
  | some a => f a

end Document

def Number.document : Number → Document
  | .natural n => .integer n.toNat
  | .negative n => .integer n.toInt
  | .real x => .double x

mutual

def Value.document : Value → Document
  | .null => .null
  | .bool b => .bool b
  | .number n => n.document
  | .string s => .string s
  | .array items => .array (documents items)
  | .object members => .object (memberDocuments members)

def documents : List Value → List Document
  | [] => []
  | v :: rest => v.document :: documents rest

def memberDocuments : Members → List (String × Document)
  | [] => []
  | (k, v) :: rest => (k, v.document) :: memberDocuments rest

end

end ContentCard.Json
