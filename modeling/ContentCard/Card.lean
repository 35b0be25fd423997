import ContentCard.Placement
import ContentCard.Visual.Render

/-!
A rendered card: a visual tree and the frames of its nodes.
-/

namespace ContentCard

structure Card where
  tree : Visual
  layout : Placement
deriving Inhabited

/-- The card of a template in the available room. -/
def Template.card (t : Template) (s : Surroundings) (room : Available) : Card :=
  let tree := t.render s
  ⟨tree, tree.placement room s.measure⟩

end ContentCard
