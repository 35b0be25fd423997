import ContentCard.Proofs.Layout.Growth
import ContentCard.Proofs.Layout.MainAxis
import ContentCard.Proofs.Style.Entries

/-!
# Weights

The weight of a node becomes a share of the room in one of its extents, and from there the growth
of its item.  So another weight of the same sign (`Visual.withWeight`) changes nothing but the
growth, and in a parent without a main axis not even that.
-/

namespace ContentCard

/-! ## 1. The weight of a node -/

def Declarations.weightKeys : List String := ["weight", "flex"]

def Extent.withWeight (w : Float32) : Extent → Extent
  | .weighted _ => .weighted w
  | e => e

def Box.withWeight (w : Float32) (b : Box) : Box :=
  { b with width := b.width.withWeight w, height := b.height.withWeight w }

/-- The visual with another weight of its own, if it has one. -/
def Visual.withWeight (w : Float32) : Visual → Visual
  | container b a vs => container (b.withWeight w) a vs
  | text b t => text (b.withWeight w) t
  | image b c => image (b.withWeight w) c
  | button b c => button (b.withWeight w) c
  | placeholder b n => placeholder (b.withWeight w) n

namespace Style

def withWeight (w : Float32) (style : Style) : Style := { style with weight := w }

theorem resolve_reweighed {d e : Declarations} (h : d.AgreeOff Declarations.weightKeys e)
    (config : Config) (parent : Direction) :
    resolve config parent e =
      (resolve config parent d).withWeight (resolve config parent e).weight := by
  simp (disch := decide) only [resolve, withWeight, Declarations.edges,
    Declarations.nonNegative?, Length.ofDeclarations, Declarations.firstFloat?,
    Declarations.paddingKeys, List.findSome?, List.any_cons, List.any_nil, h.float?, h.string?,
    h.bool?]

theorem weight_resolve (config : Config) (parent : Direction) (d : Declarations) :
    (resolve config parent d).weight = if parent.mainAxis?.isSome then d.weight else 0 := rfl

variable {style : Style} {w : Float32}

/-- Whether an extent is a share depends on the sign of the weight only. -/
theorem extent_withWeight (h : 0 < style.weight ↔ 0 < w) (precedence : FillPrecedence) (axis : Axis)
    (parent : Direction) :
    (style.withWeight w).extent precedence axis parent =
      (style.extent precedence axis parent).withWeight w := by
  simp only [extent, withWeight, ← h]
  cases axis with
  | horizontal =>
    cases style.width with
    | percent => rfl
    | auto | points | fill =>
      cases style.fillWidth <;> cases precedence <;> dsimp only <;> split <;> rfl
  | vertical =>
    cases style.height with
    | percent => rfl
    | auto | points | fill =>
      cases style.fillHeight <;> cases precedence <;> dsimp only <;> split <;> rfl

theorem box_withWeight (h : 0 < style.weight ↔ 0 < w) (config : Config) (parent : Direction)
    (natural : NaturalSize) :
    (style.withWeight w).box config parent natural =
      (style.box config parent natural).withWeight w := by
  rw [box, extent_withWeight h, extent_withWeight h]
  rfl

theorem weight_of_extent_eq_weighted {precedence : FillPrecedence} {axis : Axis}
    {parent : Direction} (h : style.extent precedence axis parent = .weighted w) :
    style.weight = w := by
  unfold extent at h
  split at h
  split at h
  · nomatch h
  · split at h
    · cases h
      rfl
    · split at h <;> nomatch h

end Style

theorem imageNaturalSize_withWeight (ratio : Option Float32) (width : Extent) (w side : Float32) :
    imageNaturalSize ratio (width.withWeight w) side = imageNaturalSize ratio width side := by
  cases ratio <;> cases width <;> rfl

namespace Visual

variable (s : Surroundings) (parent : Direction) (data : NodeData)

section

variable {style : Style} {w : Float32} (h : 0 < style.weight ↔ 0 < w)

include h

theorem ofText_withWeight :
    ofText s parent (style.withWeight w) data = (ofText s parent style data).withWeight w := by
  rw [ofText, Style.box_withWeight h]
  rfl

theorem ofImage_withWeight :
    ofImage s parent (style.withWeight w) data = (ofImage s parent style data).withWeight w := by
  rw [ofImage, Style.box_withWeight h, Style.extent_withWeight h, imageNaturalSize_withWeight]
  rfl

theorem ofButton_withWeight :
    ofButton s parent (style.withWeight w) data = (ofButton s parent style data).withWeight w := by
  have hdefaults : 0 < (style.withButtonDefaults s.config.button).weight ↔ 0 < w := h
  exact congrArg (button · _) (Style.box_withWeight hdefaults s.config parent _)

theorem ofUnknown_withWeight (name : String) :
    ofUnknown s parent (style.withWeight w) name =
      (ofUnknown s parent style name).withWeight w := by
  rw [ofUnknown, Style.box_withWeight h]
  rfl

end

/-- A node's visual reads the weight into the extents only. -/
theorem ofNode_reweighed (ns : List Node) {e : Declarations}
    (h : data.style.AgreeOff Declarations.weightKeys e)
    (hpos : 0 < data.style.weight ↔ 0 < e.weight) :
    ofNode s parent (.mk { data with style := e } ns) =
      (ofNode s parent (.mk data ns)).withWeight (Style.resolve s.config parent e).weight := by
  have hstyle := Style.resolve_reweighed h s.config parent
  have hw : 0 < (Style.resolve s.config parent data.style).weight ↔
      0 < (Style.resolve s.config parent e).weight := by
    rw [Style.weight_resolve, Style.weight_resolve]
    split
    · exact hpos
    · exact Iff.rfl
  rw [ofNode, ofNode]
  dsimp only
  generalize Style.resolve s.config parent e = style' at hstyle hw ⊢
  generalize style'.weight = w at hstyle hw ⊢
  subst hstyle
  cases data.type with
  | view =>
    dsimp only
    rw [Style.box_withWeight hw]
    rfl
  | text => exact ofText_withWeight s parent data hw
  | image => exact ofImage_withWeight s parent data hw
  | button => exact ofButton_withWeight s parent data hw
  | unknown name => exact ofUnknown_withWeight s parent hw name

end Visual

/-! ## 2. The growth of an item -/

namespace Layout

section

variable (w : Float32)

/-- An axis has its weight from its extent. -/
theorem AxisRule.of_withWeight (extent : Extent) (natural : Known) (inset margin : Float32)
    (isMain wraps : Bool) :
    of (extent.withWeight w) natural inset margin isMain wraps =
      { of extent natural inset margin isMain wraps with
        weight := (of extent natural inset margin isMain wraps).weight.map fun _ => w } := by
  rw [AxisRule.weight_of]
  cases extent with
  | percent | fixed | weighted => rfl
  | natural =>
    cases natural with
    | none => rfl
    | some v => cases wraps <;> rfl
  | fill =>
    show (if isMain then _ else if margin == 0 then _ else _ : AxisRule) =
      { (if isMain then _ else if margin == 0 then _ else _ : AxisRule) with weight := none }
    split
    · rfl
    · split <;> rfl

variable (box : Box) (parent : Direction) (wraps : Bool)

theorem axisRule_withWeight (axis : Axis) :
    axisRule (box.withWeight w) parent wraps axis =
      { axisRule box parent wraps axis with
        weight := (axisRule box parent wraps axis).weight.map fun _ => w } := by
  cases axis <;> exact AxisRule.of_withWeight w ..

/-- An item that has a weight starts from a basis and grows by the weight. -/
theorem ItemStyle.ofBox_withWeight :
    ofBox (box.withWeight w) parent wraps =
      (ofBox box parent wraps).withGrow
        (if (ofBox box parent wraps).basis.isSome then w else 0) := by
  have hnatural : ((box.withWeight w).width == .natural) = (box.width == .natural) := by
    show (box.width.withWeight w == .natural) = _
    cases box.width <;> rfl
  cases hv : (axisRule box parent wraps .vertical).weight <;>
    cases hh : (axisRule box parent wraps .horizontal).weight <;>
      simp only [ofBox, axisRule_withWeight, hnatural, hv, hh] <;> rfl

end

theorem Item.ofVisual_withWeight (w : Float32) (parent : Direction) (v : Visual) :
    Item.ofVisual parent (v.withWeight w) = (Item.ofVisual parent v).withGrow
      (if (Item.ofVisual parent v).style.basis.isSome then w else 0) := by
  cases v with
  | container box a vs =>
    rw [Visual.withWeight, Item.ofVisual, ItemStyle.ofBox_withWeight]
    rfl
  | text box t =>
    rw [Visual.withWeight, Item.ofVisual, Item.ofVisual]
    split <;> rw [ItemStyle.ofBox_withWeight] <;> rfl
  | image box | button box | placeholder box =>
    rw [Visual.withWeight, Item.ofVisual, ItemStyle.ofBox_withWeight]
    rfl

/-- The item of a node grows by the node's weight, or has no basis and does not grow. -/
theorem Item.grow_ofNode (s : Surroundings) (parent : Direction) (n : Node) :
    let style := (Item.ofVisual parent (Visual.ofNode s parent n)).style
    style.basis.isSome ∧ style.grow = n.data.style.weight ∧ 0 < n.data.style.weight ∧
        parent.mainAxis?.isSome ∨
      style.basis.isSome = false ∧ style.grow = 0 := by
  intro style
  have hstyle : style = .ofBox _ parent _ := Item.style_ofVisual parent (Visual.ofNode s parent n)
  have hextent := Visual.extent_ofNode s parent n
  have hmain (axis : Axis) (w : Float32)
      (h : (Visual.ofNode s parent n).box.extent axis = .weighted w) :=
    Style.mainAxis?_of_extent_eq_weighted ((hextent axis).symm.trans h)
  by_cases hw : ∃ axis w, (Visual.ofNode s parent n).box.extent axis = .weighted w
  · obtain ⟨axis, w, hw⟩ := hw
    obtain ⟨hparent, hpos⟩ := hmain axis w hw
    obtain ⟨hgrow, hbasis⟩ := ItemStyle.grow_of_weighted (wraps (Visual.ofNode s parent n))
      (fun axis w h => (hmain axis w h).1) hw
    have hweight := Style.weight_of_extent_eq_weighted ((hextent axis).symm.trans hw)
    rw [Style.weight_resolve, hparent, Option.isSome_some, if_pos rfl] at hweight
    rw [hstyle, hbasis, hgrow, hparent, hweight]
    exact .inl ⟨rfl, rfl, hpos, rfl⟩
  · obtain ⟨hgrow, hbasis⟩ : style.grow = 0 ∧ style.basis = none := by
      rw [hstyle]
      exact ItemStyle.grow_of_not_weighted _ (not_exists.mp <| not_exists.mp hw ·)
    rw [hbasis]
    exact .inr ⟨rfl, hgrow⟩

end Layout

end ContentCard
