import ContentCard.Card

/-!
The button under a point.

A node is under a point if its frame and the frames of all nodes around it hold the point.  Of
several buttons the one that is painted last is meant, and a tap is told to one handler.
-/

namespace ContentCard

/-- A handler that keeps a record of what it is told. -/
def TapAction.record (action : TapAction) : StateM (List TapAction) Unit := modify (· ++ [action])

namespace Visual

mutual

def tapAction? (p : Point) : Visual → Placement → Option TapAction
  | v, ⟨frame, _, places⟩ =>
    if frame.contains p then
      match v with
      | container _ _ children => lastTapAction? p children places
      | button _ content => some content.action
      | text .. | image .. | placeholder .. => none
    else none

def lastTapAction? (p : Point) : List Visual → List Placement → Option TapAction
  | v :: vs, place :: places =>
    match lastTapAction? p vs places with
    | some action => some action
    | none => tapAction? p v place
  | _, _ => none

end

/-- Tells the handler what the button under a point is for; answers whether there is one. -/
def tap [Monad m] (handler : TapAction → m Unit) (p : Point) (v : Visual) (place : Placement) :
    m Bool :=
  match v.tapAction? p place with
  | some action => do
    handler action
    return true
  | none => return false

end Visual

def Card.tapAction? (card : Card) (p : Point) : Option TapAction :=
  card.tree.tapAction? p card.layout

def Card.tap [Monad m] (card : Card) (handler : TapAction → m Unit) (p : Point) : m Bool :=
  card.tree.tap handler p card.layout

end ContentCard
