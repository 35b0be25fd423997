import ContentCard.Config.Reader
import ContentCard.Session

/-!
Sessions of hosts that hand over text as bytes which end with a zero.

A host has one callback for each session.  It cannot be told an interaction identifier with a zero
in it.
-/

namespace ContentCard

abbrev EmbeddedSession := Session Unit

namespace EmbeddedSession

/-- The text before the first zero, if there is one and it is encoded well. -/
def readText (bytes : Option (List UInt8)) : Option String :=
  bytes.bind fun bytes => String.fromUTF8? ⟨(bytes.takeWhile (· != 0)).toArray⟩

/-- A configuration that cannot be read is none at all. -/
def readConfig (bytes : Option (List UInt8)) : Config :=
  match (readText bytes).map Config.readString with
  | some (.ok config) => config
  | _ => {}

def open? (payload config : Option (List UInt8)) : Option EmbeddedSession :=
  match (readText payload).map Template.readString with
  | some (.ok template) => some (.new template (readConfig config))
  | _ => none

/-- A height that is not positive leaves the height open. -/
def room (width height : Float32) : Available := ⟨width, if 0 < height then some height else none⟩

def hasZero (s : String) : Bool := s.toList.contains '\x00'

/-- What the callback is told. -/
structure Call where
  interactionId : String
  url : Option String
deriving DecidableEq, Repr

def call? (action : TapAction) : Option Call :=
  if hasZero action.interactionId then none
  else some ⟨action.interactionId, (action.actionUrl.map (·.text)).filter (!hasZero ·)⟩

/-- Whether a button was hit, and the calls that were made. -/
def tap (s : EmbeddedSession) (p : Point) : Bool × List Call :=
  let tell (_ : Unit) (action : TapAction) : StateM (List Call) Unit :=
    modify (· ++ (call? action).toList)
  (Session.tap s tell p).run []

end EmbeddedSession

end ContentCard
