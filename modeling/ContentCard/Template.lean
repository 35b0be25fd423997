import ContentCard.Json.Reader
import ContentCard.Node

/-!
Card templates: the root of a payload has to be a JSON object; everything below it is read without
failure.
-/

namespace ContentCard

open Json

inductive TemplateFault
  | json (fault : Fault)
  | notAnObject (found : Kind)
deriving DecidableEq, Repr

structure Template where
  root : Node
deriving BEq, Repr, Inhabited

namespace Template

def ofValue : Value → Except TemplateFault Template
  | .object members => .ok ⟨.ofMembers members⟩
  | v => .error (.notAnObject v.kind)

def readBytes (payload : Bytes) : Except TemplateFault Template :=
  match Json.read payload with
  | .ok v => ofValue v
  | .error f => .error (.json f)

def readString (payload : String) : Except TemplateFault Template :=
  readBytes payload.toUTF8.toList

end Template

/-- The complaint about a root that is no object. -/
def notAnObjectMessage (found : Kind) : String :=
  "payload root must be a JSON object, found " ++ found.name

end ContentCard
