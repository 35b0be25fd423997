import ContentCard.Proofs.Layout.MainAxis

/-!
# Fill flags over lengths

The configuration says what counts where a node has both a length in points and a fill flag on one
axis.  Here two renderings are compared that prefer one and the other.  They are the same tree but
for the extents of exactly those axes; where a percentage, a weight or the number -1 settles an
extent, or where there is no length at all, nothing depends on the preference.
-/

namespace ContentCard

/-! ## 1. One axis -/

namespace Style

/-- The fill flag of an axis. -/
def fills (style : Style) : Axis → Bool
  | .horizontal => style.fillWidth
  | .vertical => style.fillHeight

/-- A length in points and a fill flag compete for an axis, and no weight decides between them. -/
structure Competes (style : Style) (parent : Direction) (axis : Axis) (v : Float32) : Prop where
  length : style.length axis = .points v
  fills : style.fills axis = true
  unweighted : ¬(parent.mainAxis? = some axis ∧ 0 < style.weight)

variable {style : Style} {parent : Direction} {axis : Axis}

theorem extent_of_competes {v : Float32} (h : style.Competes parent axis v) :
    style.extent .fill axis parent = .fill ∧ style.extent .explicit axis parent = .fixed v := by
  rcases h with ⟨hlength, hfills, hweight⟩
  unfold extent
  cases axis with
  | horizontal =>
    change style.width = .points v at hlength
    change style.fillWidth = true at hfills
    simp only [hlength, hfills, if_neg hweight, and_self]
  | vertical =>
    change style.height = .points v at hlength
    change style.fillHeight = true at hfills
    simp only [hlength, hfills, if_neg hweight, and_self]

/-- On any other axis the preference does not count. -/
theorem extent_congr (h : ∀ v, ¬style.Competes parent axis v) (p q : FillPrecedence) :
    style.extent p axis parent = style.extent q axis parent := by
  by_cases hweight : parent.mainAxis? = some axis ∧ 0 < style.weight
  · -- a percentage or else the weight has it
    unfold extent
    simp only [if_pos hweight]
  · have hcompetes (v : Float32) (hlength : style.length axis = .points v) :
        style.fills axis = false :=
      Bool.eq_false_iff.mpr fun hfills => h v ⟨hlength, hfills, hweight⟩
    unfold extent
    simp only [if_neg hweight]
    cases axis with
    | horizontal =>
      change ∀ v, style.width = .points v → style.fillWidth = false at hcompetes
      cases hlength : style.width with
      | points v => simp only [hcompetes v hlength]
      | percent | fill => rfl
      | auto => cases style.fillWidth <;> rfl
    | vertical =>
      change ∀ v, style.height = .points v → style.fillHeight = false at hcompetes
      cases hlength : style.height with
      | points v => simp only [hcompetes v hlength]
      | percent | fill => rfl
      | auto => cases style.fillHeight <;> rfl

/-- Whether an extent is natural does not depend on the preference at all. -/
theorem extent_eq_natural_iff (p q : FillPrecedence) :
    style.extent p axis parent = .natural ↔ style.extent q axis parent = .natural := by
  by_cases h : ∃ v, style.Competes parent axis v
  · rcases h with ⟨v, hv⟩
    have hextent := extent_of_competes hv
    cases p <;> cases q <;> simp [hextent.1, hextent.2]
  · rw [extent_congr (not_exists.mp h) p q]

end Style

/-- The sides of an image that its extents leave open do not depend on the preference. -/
theorem imageNaturalSize_extent (style : Style) (parent : Direction) (ratio : Option Float32)
    (side : Float32) (p q : FillPrecedence) :
    imageNaturalSize ratio (style.extent p .horizontal parent) side =
      imageNaturalSize ratio (style.extent q .horizontal parent) side := by
  have hnatural : style.extent p .horizontal parent = .natural ↔
      style.extent q .horizontal parent = .natural := Style.extent_eq_natural_iff p q
  cases ratio with
  | none => rfl
  | some r =>
    cases hp : style.extent p .horizontal parent <;>
      cases hq : style.extent q .horizontal parent <;> simp_all [imageNaturalSize]

/-! ## 2. Trees without extents -/

def Box.unsized (b : Box) : Box := { b with width := .natural, height := .natural }

namespace Visual

mutual

/-- The visual without the extents of its boxes. -/
def unsized : Visual → Visual
  | container box a children => container box.unsized a (unsizedAll children)
  | text box t => text box.unsized t
  | image box c => image box.unsized c
  | button box c => button box.unsized c
  | placeholder box n => placeholder box.unsized n

def unsizedAll : List Visual → List Visual
  | [] => []
  | v :: rest => v.unsized :: unsizedAll rest

end

end Visual

namespace Surroundings

/-- The same host with another preference. -/
def preferring (s : Surroundings) (p : FillPrecedence) : Surroundings :=
  { s with config := { s.config with fillPrecedence := p } }

variable (s : Surroundings) (p : FillPrecedence)

/-- Nothing that a style means depends on the preference. -/
theorem resolve_preferring (parent : Direction) (d : Declarations) :
    Style.resolve (s.preferring p).config parent d = Style.resolve s.config parent d := rfl

end Surroundings

namespace Visual

variable (s : Surroundings) (p q : FillPrecedence)

theorem unsized_ofImage (parent : Direction) (style : Style) (data : NodeData) :
    (ofImage (s.preferring p) parent style data).unsized =
      (ofImage (s.preferring q) parent style data).unsized := by
  unfold ofImage
  dsimp only [Surroundings.preferring]
  rw [imageNaturalSize_extent style parent _ _ p q]
  rfl

mutual

/-- One node: the preference is seen in extents only. -/
theorem unsized_ofNode (parent : Direction) (n : Node) :
    (ofNode (s.preferring p) parent n).unsized = (ofNode (s.preferring q) parent n).unsized := by
  match n with
  | .mk data children =>
    rw [ofNode, ofNode, s.resolve_preferring p, s.resolve_preferring q]
    cases data.type with
    | view =>
      dsimp only
      rw [unsized, unsized, unsized_ofNodes _ children]
      rfl
    | image => exact unsized_ofImage s p q parent _ data
    | text | button | unknown => rfl

theorem unsized_ofNodes (parent : Direction) (ns : List Node) :
    unsizedAll (ofNodes (s.preferring p) parent ns) =
      unsizedAll (ofNodes (s.preferring q) parent ns) := by
  match ns with
  | [] => rfl
  | n :: rest =>
    rw [ofNodes, ofNodes, unsizedAll, unsizedAll, unsized_ofNode parent n,
      unsized_ofNodes parent rest]

end

end Visual

/-! ## 3. Two renderings -/

/-- At every position of a rendered tree stands the visual of the node there. -/
theorem Template.descend_render (t : Template) (s : Surroundings) (path : List Nat) :
    descend Visual.children (t.render s) path =
      (descend (Node.sites s.config) (.column, t.root) path).map
        fun x => Visual.ofNode s x.1 x.2 := by
  have hchildren : ∀ x : Direction × Node, (Visual.ofNode s x.1 x.2).children =
      (Node.sites s.config x).map fun y => Visual.ofNode s y.1 y.2 := by
    rintro ⟨parent, n⟩
    show _ = List.map _ (if n.data.type = .view then _ else [])
    rw [Visual.children_ofNode]
    split
    · rw [List.map_map]
      rfl
    · rfl
  exact descend_map hchildren (.column, t.root) path

/-- Rendered with fill flags preferred and with lengths preferred, a template gives the same tree
but for extents, and at each position the two visuals of one node in one parent.  If a length and a
fill flag compete for an axis of the node, it is filled in the first tree and has its length in the
second; on every other axis both have the same extent. -/
theorem Template.render_preferring (t : Template) (s : Surroundings) :
    let filled := t.render (s.preferring .fill)
    let sized := t.render (s.preferring .explicit)
    filled.unsized = sized.unsized ∧
    (∀ path, descend Visual.children filled path =
      (descend (Node.sites s.config) (.column, t.root) path).map
        fun x => Visual.ofNode (s.preferring .fill) x.1 x.2) ∧
    (∀ path, descend Visual.children sized path =
      (descend (Node.sites s.config) (.column, t.root) path).map
        fun x => Visual.ofNode (s.preferring .explicit) x.1 x.2) ∧
    ∀ (parent : Direction) (n : Node) (axis : Axis),
      let style := Style.resolve s.config parent n.data.style
      let filled := (Visual.ofNode (s.preferring .fill) parent n).box.extent axis
      let sized := (Visual.ofNode (s.preferring .explicit) parent n).box.extent axis
      (∀ v, style.Competes parent axis v → filled = .fill ∧ sized = .fixed v) ∧
      ((∀ v, ¬style.Competes parent axis v) → filled = sized) := by
  refine ⟨Visual.unsized_ofNode s .fill .explicit .column t.root,
    fun path => t.descend_render (s.preferring .fill) path,
    fun path => t.descend_render (s.preferring .explicit) path, fun parent n axis => ?_⟩
  intro style filled sized
  have hfilled : filled = style.extent .fill axis parent :=
    Visual.extent_ofNode (s.preferring .fill) parent n axis
  have hsized : sized = style.extent .explicit axis parent :=
    Visual.extent_ofNode (s.preferring .explicit) parent n axis
  rw [hfilled, hsized]
  exact ⟨fun v h => Style.extent_of_competes h, fun h => Style.extent_congr h _ _⟩

/-- An image that is 100 pixels wide, and is to fill the width as well. -/
def wideImage : Node := .mk
  { type := .image
    style := ⟨[("width", .number (.natural 100)), ("fillWidth", .bool true)]⟩
    content := none, url := none, label := none, actionUrl := none, interactionId := none } []

/-- In a column its length and its fill flag compete for the width; its height is left open. -/
theorem wideImage_render_preferring :
    let s : Surroundings := ⟨{}, Estimate.measure {}, fun _ => .pending⟩
    let filled := Visual.ofNode (s.preferring .fill) .column wideImage
    let sized := Visual.ofNode (s.preferring .explicit) .column wideImage
    let style := Style.resolve s.config .column wideImage.data.style
    style.Competes .column .horizontal 100 ∧ (∀ v, ¬style.Competes .column .vertical v) ∧
      filled.unsized = sized.unsized ∧ filled.box.extent .horizontal = .fill ∧
      sized.box.extent .horizontal = .fixed 100 ∧
      filled.box.extent .vertical = sized.box.extent .vertical := by
  intro s filled sized style
  have hlength : style.width = .points 100 := by
    have hdeclared : wideImage.data.style.float? "width" = some 100 := by decide +kernel
    show Length.ofDeclarations wideImage.data.style "width" = _
    rw [Length.ofDeclarations, hdeclared]
    show Length.ofNumber 100 = _
    rw [Length.ofNumber, if_neg (by decide +kernel), if_pos (by decide +kernel)]
  have hauto : style.height = .auto := rfl
  have hwidth : style.Competes .column .horizontal 100 :=
    ⟨hlength, rfl, fun h => absurd h.1 (by decide)⟩
  have hheight (v : Float32) : ¬style.Competes .column .vertical v := fun h =>
    Length.noConfusion (hauto.symm.trans h.length)
  obtain ⟨hunsized, -, -, hextent⟩ := Template.render_preferring ⟨wideImage⟩ s
  obtain ⟨hfilled, hsized⟩ := (hextent .column wideImage .horizontal).1 100 hwidth
  exact ⟨hwidth, hheight, hunsized, hfilled, hsized,
    (hextent .column wideImage .vertical).2 hheight⟩

end ContentCard
