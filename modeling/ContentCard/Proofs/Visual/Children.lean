import ContentCard.Card
import ContentCard.Proofs.Tree.Descend

/-!
# Children through the passes

A node's visual has the visuals of the node's children, and its item their items, each made in the
direction that the parent's own style or arrangement says.
-/

namespace ContentCard

namespace Visual

/-- The type of node that a visual is for; a placeholder keeps the type's name. -/
def nodeType : Visual → NodeType
  | container .. => .view
  | text .. => .text
  | image .. => .image
  | button .. => .button
  | placeholder _ notice => .unknown notice.typeName

variable (s : Surroundings) (parent : Direction)

theorem ofNodes_eq_map (ns : List Node) : ofNodes s parent ns = ns.map (ofNode s parent) := by
  induction ns with
  | nil => rfl
  | cons n rest ih => rw [ofNodes, ih, List.map_cons]

theorem nodeType_ofNode (n : Node) : (ofNode s parent n).nodeType = n.data.type := by
  obtain ⟨data, children⟩ := n
  rw [ofNode]
  cases h : data.type <;> exact h.symm

theorem type_of_ofNode_eq {n : Node} {v : Visual} (h : ofNode s parent n = v) :
    n.data.type = v.nodeType := by
  rw [← h, nodeType_ofNode]

theorem ofNode_of_text {n : Node} (h : n.data.type = .text) :
    ofNode s parent n = ofText s parent (Style.resolve s.config parent n.data.style) n.data := by
  obtain ⟨data, children⟩ := n
  change data.type = .text at h
  rw [ofNode, h]
  rfl

theorem ofNode_of_button {n : Node} (h : n.data.type = .button) :
    ofNode s parent n = ofButton s parent (Style.resolve s.config parent n.data.style) n.data := by
  obtain ⟨data, children⟩ := n
  change data.type = .button at h
  rw [ofNode, h]
  rfl

theorem ofNode_of_unknown {n : Node} {name : String} (h : n.data.type = .unknown name) :
    ofNode s parent n = ofUnknown s parent (Style.resolve s.config parent n.data.style) name := by
  obtain ⟨data, children⟩ := n
  change data.type = .unknown name at h
  rw [ofNode, h]
  rfl

/-- Only a view passes on its children, in the direction that its style says. -/
theorem children_ofNode (n : Node) :
    (ofNode s parent n).children =
      if n.data.type = .view then
        n.children.map (ofNode s (Style.resolve s.config parent n.data.style).direction)
      else [] := by
  obtain ⟨data, children⟩ := n
  show (ofNode s parent (.mk data children)).children = if data.type = .view then _ else _
  rw [ofNode]
  cases h : data.type with
  | view => rw [if_pos rfl]; exact ofNodes_eq_map s _ children
  | text | image | button | unknown => rw [if_neg NodeType.noConfusion]; rfl

/-- Every visual in a rendered tree is that of a node. -/
theorem exists_node_of_descend {n : Node} {v : Visual} {path : List Nat}
    (h : descend Visual.children (ofNode s parent n) path = some v) :
    ∃ parent n, v = ofNode s parent n := by
  have hchildren : ∀ v : Visual, (∃ parent n, v = ofNode s parent n) → ∀ w ∈ v.children,
      ∃ parent n, w = ofNode s parent n := by
    rintro v ⟨parent, n, rfl⟩ w hw
    rw [children_ofNode] at hw
    split at hw
    · obtain ⟨m, -, rfl⟩ := List.mem_map.mp hw
      exact ⟨_, m, rfl⟩
    · cases hw
  exact of_descend hchildren ⟨parent, n, rfl⟩ h

end Visual

namespace Layout

theorem Item.ofVisuals_eq_map (parent : Direction) (vs : List Visual) :
    Item.ofVisuals parent vs = vs.map (Item.ofVisual parent) := by
  induction vs with
  | nil => rfl
  | cons v rest ih => rw [Item.ofVisuals, ih, List.map_cons]

end Layout

end ContentCard
