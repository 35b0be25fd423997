import ContentCard.Card.Document
import ContentCard.Session

/-!
Operations on a session, and what they are answered with.

An engine that lays out cards may fail.  The session then keeps the card that it has.
-/

namespace ContentCard

/-- Why there is no layout, in the words of the engine. -/
structure LayoutFault where
  reason : String
deriving DecidableEq, Repr

/-- Lays out a visual in the available room, with text measured as given. -/
abbrev LayoutEngine := Visual → Available → Measurer → Except LayoutFault Placement

/-- The layout of this library.  It does not fail, but not every layout comes to its end
(`Visual.layout?`). -/
def LayoutEngine.standard : LayoutEngine := fun v room measure => .ok (v.placement room measure)

/-- The card of a template, if the engine finds a layout for it. -/
def Template.cardBy (t : Template) (engine : LayoutEngine) (s : Surroundings) (room : Available) :
    Except LayoutFault Card :=
  let tree := t.render s
  (engine tree room s.measure).map (⟨tree, ·⟩)

namespace Session

inductive Operation (Handler : Type)
  | render (room : Available)
  | setHandler (handler : Handler)
  | tap (point : Point)
  | writeCard

inductive Answer (Handler : Type)
  | rendered (result : Except LayoutFault Card)
  | handlerSet
  /-- Whether a button was hit, and the handlers that were called. -/
  | tapped (hit : Bool) (calls : List (Handler × TapAction))
  | written (text : Option String)

variable {Handler : Type}

/-- Renders the card if the engine finds a layout for it. -/
def renderBy (s : Session Handler) (engine : LayoutEngine) (images : ImageSource)
    (room : Available) : Except LayoutFault Card × Session Handler :=
  match s.template.cardBy engine ⟨s.config, s.measure, images⟩ room with
  | .ok card => (.ok card, { s with rendered := some card })
  | .error fault => (.error fault, s)

theorem renderBy_standard (s : Session Handler) (images : ImageSource) (room : Available) :
    s.renderBy .standard images room = (.ok (s.card images room), s.render images room) := rfl

/-- The text of the card that was rendered last. -/
def cardText? (s : Session Handler) : Option String := s.rendered.map fun card => card.document.text

/-- A tap, and the record of the calls that it makes. -/
def tapRecorded (s : Session Handler) (p : Point) : Bool × List (Handler × TapAction) :=
  let record (handler : Handler) (action : TapAction) : StateM (List (Handler × TapAction)) Unit :=
    modify (· ++ [(handler, action)])
  (s.tap record p).run []

def perform (s : Session Handler) (engine : LayoutEngine) (images : ImageSource) :
    Operation Handler → Answer Handler × Session Handler
  | .render room =>
    let (result, s) := s.renderBy engine images room
    (.rendered result, s)
  | .setHandler handler => (.handlerSet, s.setHandler handler)
  | .tap point =>
    let (hit, calls) := s.tapRecorded point
    (.tapped hit calls, s)
  | .writeCard => (.written s.cardText?, s)

def performAll (s : Session Handler) (engine : LayoutEngine) (images : ImageSource) :
    List (Operation Handler) → List (Answer Handler) × Session Handler
  | [] => ([], s)
  | operation :: rest =>
    let (answer, s) := s.perform engine images operation
    let (answers, s) := performAll s engine images rest
    (answer :: answers, s)

end Session

end ContentCard
