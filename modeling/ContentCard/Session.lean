import ContentCard.Card.Tap

/-!
A card that is shown: it is rendered again when the host asks for it, and taps go to the card that
was rendered last.
-/

namespace ContentCard

/-- Text as a configuration estimates it. -/
def Config.measure (c : Config) : Measurer :=
  Estimate.measure ⟨c.charWidthFactor, c.lineHeightExtra⟩

/-- `Handler` is what the host is known by when a button is tapped. -/
structure Session (Handler : Type) where
  template : Template
  config : Config
  measure : Measurer
  handler : Option Handler := none
  rendered : Option Card := none

namespace Session

def new (template : Template) (config : Config) : Session Handler :=
  { template, config, measure := config.measure }

/-- The card as it would be rendered now; nothing rendered before has a part in it. -/
def card (s : Session Handler) (images : ImageSource) (room : Available) : Card :=
  s.template.card ⟨s.config, s.measure, images⟩ room

def render (s : Session Handler) (images : ImageSource) (room : Available) : Session Handler :=
  { s with rendered := some (s.card images room) }

def setHandler (s : Session Handler) (handler : Handler) : Session Handler :=
  { s with handler := some handler }

/-- A tap on the card that was rendered last; `call` is what it is to call a handler.  Without a
rendered card or a handler nothing happens. -/
def tap [Monad m] (s : Session Handler) (call : Handler → TapAction → m Unit) (p : Point) :
    m Bool :=
  match s.rendered, s.handler with
  | some card, some handler => card.tap (call handler) p
  | _, _ => return false

end Session

end ContentCard
