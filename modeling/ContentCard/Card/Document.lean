import ContentCard.Card
import ContentCard.Visual.Document

/-!
Cards as JSON documents.
-/

namespace ContentCard

open Json

namespace Placement

mutual

def document : Placement → Document
  | ⟨frame, content, children⟩ =>
    .object [("frame", frame.document), ("content", content.document),
      ("children", .array (documents children))]

def documents : List Placement → List Document
  | [] => []
  | p :: rest => p.document :: documents rest

end

end Placement

def Card.document (card : Card) : Document :=
  .object [("tree", card.tree.document), ("layout", card.layout.document)]

end ContentCard
