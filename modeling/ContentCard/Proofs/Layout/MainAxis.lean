import ContentCard.Proofs.Tree.Descend
import ContentCard.Proofs.Visual.Children

/-!
# One main axis for sizing and layout

The extents of a node are chosen for the direction of its parent, and so is the style of the item
that the layout makes of it.  Both come to every node in the same direction.  A share of the
parent's free room is given along its main axis only, and it is what makes an item grow.
-/

namespace ContentCard

/-! ## 1. The direction at every position -/

/-- The children of a node, with the direction in which they are sized. -/
def Node.sites (config : Config) : Direction × Node → List (Direction × Node)
  | (parent, n) =>
    if n.data.type = .view then
      n.children.map ((Style.resolve config parent n.data.style).direction, ·)
    else []

/-- The children of a visual, with the direction in which they are laid out. -/
def Visual.sites : Direction × Visual → List (Direction × Visual)
  | (_, .container _ a children) => children.map (a.direction, ·)
  | _ => []

/-- The items inside an item. -/
def Layout.Item.children : Item → List Item
  | container _ _ children => children
  | _ => []

/-- The arrangement of a container has the direction of its node's style. -/
theorem Visual.sites_ofNode (s : Surroundings) (x : Direction × Node) :
    Visual.sites (x.1, Visual.ofNode s x.1 x.2) =
      (Node.sites s.config x).map fun y => (y.1, Visual.ofNode s y.1 y.2) := by
  obtain ⟨parent, data, children⟩ := x
  show _ = List.map _ (if data.type = .view then _ else _)
  rw [Visual.ofNode]
  cases h : data.type with
  | view =>
    rw [if_pos rfl, List.map_map]
    show List.map _ (Visual.ofNodes s _ children) = _
    rw [Visual.ofNodes_eq_map, List.map_map]
    rfl
  | text | image | button | unknown => rw [if_neg NodeType.noConfusion]; rfl

theorem Layout.Item.children_ofVisual (x : Direction × Visual) :
    (Item.ofVisual x.1 x.2).children = (Visual.sites x).map fun y => Item.ofVisual y.1 y.2 := by
  obtain ⟨parent, v⟩ := x
  cases v with
  | container box a children =>
    show Item.ofVisuals a.direction children = List.map _ (List.map _ children)
    rw [Item.ofVisuals_eq_map, List.map_map]
    rfl
  | text box t =>
    show (Item.ofVisual parent (.text box t)).children = []
    rw [Item.ofVisual]
    split <;> rfl
  | image | button | placeholder => rfl

/-! ## 2. Extents -/

/-- The key of the length along an axis. -/
def Axis.lengthKey : Axis → String
  | .horizontal => "width"
  | .vertical => "height"

def Box.extent (b : Box) : Axis → Extent
  | .horizontal => b.width
  | .vertical => b.height

theorem Visual.extent_ofNode (s : Surroundings) (parent : Direction) (n : Node) (axis : Axis) :
    (Visual.ofNode s parent n).box.extent axis =
      (Style.resolve s.config parent n.data.style).extent s.config.fillPrecedence axis parent := by
  obtain ⟨data, children⟩ := n
  rw [Visual.ofNode]
  -- button defaults are paint, margin and padding
  cases data.type <;> cases axis <;> rfl

/-- A percentage is a percentage under every reading: an entry that is a text is no number. -/
theorem Length.ofDeclarations_eq_percent {d : Declarations} {key : String} {p : Float32}
    (h : (d.string? key).bind percentage? = some p) : ofDeclarations d key = .percent p := by
  have hf : d.float? key = none := by
    obtain ⟨text, ht, -⟩ := Option.bind_eq_some_iff.mp h
    obtain ⟨v, hv, hs⟩ := Option.bind_eq_some_iff.mp ht
    rw [Declarations.float?, Declarations.number?, hv]
    cases v with
    | string s => rfl
    | null | bool | number | array | object => nomatch hs
  rw [ofDeclarations, hf, h]

namespace Style

def length (style : Style) : Axis → Length
  | .horizontal => style.width
  | .vertical => style.height

variable {style : Style} {precedence : FillPrecedence} {axis : Axis} {parent : Direction}

theorem extent_of_percent {p : Float32} (h : style.length axis = .percent p) :
    style.extent precedence axis parent = .percent p := by
  cases axis with
  | horizontal =>
    have h : style.width = .percent p := h
    rw [extent, h]
  | vertical =>
    have h : style.height = .percent p := h
    rw [extent, h]

/-- A share is given on the main axis only, and for a positive weight. -/
theorem mainAxis?_of_extent_eq_weighted {w : Float32}
    (h : style.extent precedence axis parent = .weighted w) :
    parent.mainAxis? = some axis ∧ 0 < w := by
  unfold extent at h
  split at h
  split at h
  · nomatch h
  · split at h
    · rename_i hw
      cases h
      exact hw
    -- without a weight an axis is filled, fixed or natural
    · split at h <;> nomatch h

end Style

theorem Style.length_resolve (config : Config) (parent : Direction) (d : Declarations)
    (axis : Axis) :
    (Style.resolve config parent d).length axis = .ofDeclarations d axis.lengthKey := by
  cases axis <;> rfl

/-! ## 3. Item styles -/

namespace Layout

section

variable (extent : Extent) (natural : Known) (inset margin : Float32) (isMain wraps : Bool)

theorem AxisRule.weight_of :
    (AxisRule.of extent natural inset margin isMain wraps).weight =
      match extent with
      | .weighted w => some w
      | _ => none := by
  cases extent with
  | percent | weighted | fixed => rfl
  | fill =>
    show (if isMain then _ else if margin == 0 then _ else _ : AxisRule).weight = none
    split
    · rfl
    · split <;> rfl
  | natural =>
    cases natural with
    | none => rfl
    | some v => cases wraps <;> rfl

theorem AxisRule.yields_of :
    (AxisRule.of extent natural inset margin isMain wraps).yields =
      match extent with
      | .weighted _ => true
      | .fill => isMain
      | _ => false := by
  cases extent with
  | percent | weighted | fixed => rfl
  | fill =>
    show (if isMain then _ else if margin == 0 then _ else _ : AxisRule).yields = isMain
    cases isMain with
    | true => rfl
    | false =>
      rw [if_neg Bool.false_ne_true]
      split <;> rfl
  | natural =>
    cases natural with
    | none => rfl
    | some v => cases wraps <;> rfl

end

section

variable (box : Box) (parent : Direction) (wraps : Bool)

theorem weight_axisRule (axis : Axis) :
    (axisRule box parent wraps axis).weight =
      match box.extent axis with
      | .weighted w => some w
      | _ => none := by
  cases axis <;> exact AxisRule.weight_of ..

theorem yields_axisRule_iff (axis : Axis) :
    (axisRule box parent wraps axis).yields = true ↔
      (∃ w, box.extent axis = .weighted w) ∨
        parent.mainAxis? = some axis ∧ box.extent axis = .fill := by
  have h : (axisRule box parent wraps axis).yields =
      match box.extent axis with
      | .weighted _ => true
      | .fill => decide (parent.mainAxis? = some axis)
      | _ => false := by
    cases axis <;> exact AxisRule.yields_of ..
  rw [h]
  cases box.extent axis with
  | weighted w => exact ⟨fun _ => .inl ⟨w, rfl⟩, fun _ => rfl⟩
  | fill =>
    rw [decide_eq_true_eq]
    refine ⟨fun hm => .inr ⟨hm, rfl⟩, ?_⟩
    rintro (⟨w, hw⟩ | ⟨hm, -⟩)
    · nomatch hw
    · exact hm
  | percent | fixed | natural =>
    refine ⟨(nomatch ·), ?_⟩
    rintro (⟨w, hw⟩ | ⟨-, hf⟩)
    · nomatch hw
    · nomatch hf

variable {box parent}

theorem weight_axisRule_eq_none {axis : Axis} (h : ∀ w, box.extent axis ≠ .weighted w) :
    (axisRule box parent wraps axis).weight = none := by
  rw [weight_axisRule]
  split
  · rename_i w hw
    exact absurd hw (h w)
  · rfl

/-- Growth and basis follow from one weight, that of the vertical axis if there is one. -/
theorem ItemStyle.grow_and_basis {weight : Option Float32}
    (h : ((axisRule box parent wraps .vertical).weight.or
      (axisRule box parent wraps .horizontal).weight) = weight) :
    (ofBox box parent wraps).grow = weight.getD 0 ∧
      (ofBox box parent wraps).basis = weight.map fun _ => 0 :=
  ⟨congrArg (Option.getD · 0) h, congrArg (Option.map fun _ => 0) h⟩

/-- Both axes write the growth of an item; at most one of them is weighted. -/
theorem ItemStyle.grow_of_weighted
    (hmain : ∀ axis w, box.extent axis = .weighted w → parent.mainAxis? = some axis)
    {axis : Axis} {w : Float32} (h : box.extent axis = .weighted w) :
    (ofBox box parent wraps).grow = w ∧ (ofBox box parent wraps).basis = some 0 := by
  have hw : (axisRule box parent wraps axis).weight = some w := by rw [weight_axisRule, h]
  have hother : (axisRule box parent wraps axis.other).weight = none := by
    refine weight_axisRule_eq_none wraps fun w' hw' => ?_
    have he := (hmain axis w h).symm.trans (hmain axis.other w' hw')
    cases axis <;> nomatch he
  have hor : ((axisRule box parent wraps .vertical).weight.or
      (axisRule box parent wraps .horizontal).weight) = some w := by
    cases axis with
    | horizontal => exact (congrArg (Option.or · _) hother).trans hw
    | vertical => exact congrArg (Option.or · _) hw
  exact ItemStyle.grow_and_basis wraps hor

theorem ItemStyle.grow_of_not_weighted (h : ∀ axis w, box.extent axis ≠ .weighted w) :
    (ofBox box parent wraps).grow = 0 ∧ (ofBox box parent wraps).basis = none := by
  have hnone (axis : Axis) : (axisRule box parent wraps axis).weight = none :=
    weight_axisRule_eq_none wraps (h axis)
  have hor : ((axisRule box parent wraps .vertical).weight.or
      (axisRule box parent wraps .horizontal).weight) = none := by
    rw [hnone, hnone]
    rfl
  exact ItemStyle.grow_and_basis wraps hor

theorem ItemStyle.shrink_ne_zero_iff :
    (ofBox box parent wraps).shrink ≠ 0 ↔
      (∃ axis w, box.extent axis = .weighted w) ∨
        (∃ axis, parent.mainAxis? = some axis ∧ box.extent axis = .fill) ∨
        wraps = true ∧ parent = .row ∧ box.width = .natural := by
  have hnat : (wraps && parent == .row && box.width == .natural) = true ↔
      wraps = true ∧ parent = .row ∧ box.width = .natural := by
    rw [Bool.and_eq_true, Bool.and_eq_true, beq_iff_eq, and_assoc]
    cases box.width with
    | natural =>
      exact and_congr_right fun _ => and_congr_right fun _ => ⟨fun _ => rfl, fun _ => rfl⟩
    | percent | weighted | fill | fixed =>
      exact and_congr_right fun _ => and_congr_right fun _ => ⟨(nomatch ·), (nomatch ·)⟩
  have hone : (1 : Float32) ≠ 0 := by decide
  have hif (b : Bool) : (if b then 1 else 0 : Float32) ≠ 0 ↔ b = true := by
    cases b with
    | true => exact ⟨fun _ => rfl, fun _ => hone⟩
    | false => exact ⟨fun h => absurd rfl h, (nomatch ·)⟩
  show (if (axisRule box parent wraps .horizontal).yields ||
    (axisRule box parent wraps .vertical).yields || _ then 1 else 0 : Float32) ≠ 0 ↔ _
  rw [hif, Bool.or_eq_true, Bool.or_eq_true, yields_axisRule_iff, yields_axisRule_iff, hnat]
  constructor
  · rintro (((hw | hf) | hw | hf) | hn)
    · exact .inl ⟨.horizontal, hw⟩
    · exact .inr (.inl ⟨.horizontal, hf⟩)
    · exact .inl ⟨.vertical, hw⟩
    · exact .inr (.inl ⟨.vertical, hf⟩)
    · exact .inr (.inr hn)
  · rintro (⟨axis, hw⟩ | ⟨axis, hf⟩ | hn)
    · cases axis with
      | horizontal => exact .inl (.inl (.inl hw))
      | vertical => exact .inl (.inr (.inl hw))
    · cases axis with
      | horizontal => exact .inl (.inl (.inr hf))
      | vertical => exact .inl (.inr (.inr hf))
    · exact .inr hn

end

/-- Only text is broken into lines by the layout, and only without a line limit. -/
def wraps : Visual → Bool
  | .text _ t => t.lineLimit.isNone
  | _ => false

theorem Item.style_ofVisual (parent : Direction) (v : Visual) :
    (Item.ofVisual parent v).style = .ofBox v.box parent (wraps v) := by
  cases v with
  | container | image | button | placeholder => rfl
  | text box t =>
    show (if t.lineLimit.isNone then _ else _ : Item).style = ItemStyle.ofBox box parent _
    split
    · rename_i h
      rw [wraps, h]
      rfl
    · rename_i h
      rw [wraps, Bool.eq_false_iff.mpr h]
      rfl

end Layout

theorem Visual.wraps_ofNode (s : Surroundings) (parent : Direction) (n : Node) :
    Layout.wraps (Visual.ofNode s parent n) = true ↔ n.data.type = .text := by
  obtain ⟨data, children⟩ := n
  show _ ↔ data.type = .text
  rw [Visual.ofNode]
  cases data.type with
  | text => exact ⟨fun _ => rfl, fun _ => rfl⟩
  | view | image | button | unknown => exact ⟨(nomatch ·), (nomatch ·)⟩

/-! ## 4. Rendered trees -/

/-- At every position of a rendered tree the layout makes the item in the direction in which the
node's extents were chosen; for the root this is a column.  In any direction a share of the free
room is given along the main axis only, for a positive weight and not over a percentage.  It is what
lets an item grow from nothing; what lets it shrink is a share, a fill along the main axis, or
being text of natural width in a row. -/
theorem Template.mainAxis_shared (t : Template) (s : Surroundings) :
    (∀ path, descend Visual.sites (.column, t.render s) path =
      (descend (Node.sites s.config) (.column, t.root) path).map
        fun x => (x.1, Visual.ofNode s x.1 x.2)) ∧
    (∀ path, descend Layout.Item.children (Layout.Item.ofVisual .column (t.render s)) path =
      (descend Visual.sites (.column, t.render s) path).map
        fun x => Layout.Item.ofVisual x.1 x.2) ∧
    ∀ (parent : Direction) (n : Node),
      let v := Visual.ofNode s parent n
      let style := (Layout.Item.ofVisual parent v).style
      (∀ axis, v.box.extent axis = (Style.resolve s.config parent n.data.style).extent
        s.config.fillPrecedence axis parent) ∧
      (∀ axis w, v.box.extent axis = .weighted w →
        parent.mainAxis? = some axis ∧ parent ≠ .overlay ∧ 0 < w ∧
          (n.data.style.string? axis.lengthKey).bind percentage? = none) ∧
      (∀ axis w, v.box.extent axis = .weighted w → style.grow = w ∧ style.basis = some 0) ∧
      ((∀ axis w, v.box.extent axis ≠ .weighted w) → style.grow = 0 ∧ style.basis = none) ∧
      (style.shrink ≠ 0 ↔
        (∃ axis w, v.box.extent axis = .weighted w) ∨
          (∃ axis, parent.mainAxis? = some axis ∧ v.box.extent axis = .fill) ∨
          n.data.type = .text ∧ parent = .row ∧ v.box.width = .natural) := by
  refine ⟨fun path => descend_map (Visual.sites_ofNode s) (.column, t.root) path,
    fun path => descend_map Layout.Item.children_ofVisual (.column, t.render s) path,
    fun parent n => ?_⟩
  intro v style
  have hstyle : style = .ofBox v.box parent (Layout.wraps v) := Layout.Item.style_ofVisual parent v
  have hextent := Visual.extent_ofNode s parent n
  have hmain (axis : Axis) (w : Float32) (h : v.box.extent axis = .weighted w) :=
    Style.mainAxis?_of_extent_eq_weighted ((hextent axis).symm.trans h)
  refine ⟨hextent, fun axis w h => ⟨(hmain axis w h).1, ?_, (hmain axis w h).2, ?_⟩,
    fun axis w h => ?_, fun h => ?_, ?_⟩
  · rintro rfl
    nomatch (hmain axis w h).1
  -- a percentage would stand over the share
  · by_contra hp
    obtain ⟨p, hp⟩ := Option.ne_none_iff_exists'.mp hp
    have hlength := (Style.length_resolve s.config parent n.data.style axis).trans
      (Length.ofDeclarations_eq_percent hp)
    nomatch h.symm.trans ((hextent axis).trans (Style.extent_of_percent hlength))
  · rw [hstyle]
    exact Layout.ItemStyle.grow_of_weighted _ (fun axis w h => (hmain axis w h).1) h
  · rw [hstyle]
    exact Layout.ItemStyle.grow_of_not_weighted _ h
  · rw [hstyle, Layout.ItemStyle.shrink_ne_zero_iff, Visual.wraps_ofNode s parent n]

end ContentCard
