import ContentCard.Proofs.Layout.Unpainted
import ContentCard.Proofs.Style.Entries
import ContentCard.Session

/-!
# Paint and actions move no frame

Two nodes are equal up to paint (`Node.EqUpToPaint`) if they differ only in addresses, in the
identifiers of taps and in the style entries that are for the painter.  Their visuals are equal
without paint, whatever the states of the images are, and so their layouts are equal.
-/

namespace ContentCard

/-! ## 1. Style entries -/

namespace Declarations

/-- The keys whose entries are for the painter only. -/
def paintKeys : List String :=
  ["backgroundColor", "borderColor", "borderRadius", "textColor", "color", "contentScale"]

/-- The same entries, those for the painter aside. -/
abbrev EqUpToPaint (d e : Declarations) : Prop := AgreeOff paintKeys d e

end Declarations

/-- The style without what only the painter reads. -/
def Style.unpainted (style : Style) : Style :=
  { style with
    background := none
    border := style.border.unpainted
    textColor := none
    contentScale := .fit
    hasBorderRadius := false }

/-- Resolving reads the entries for the painter only into what the painter reads. -/
theorem unpainted_resolve {d e : Declarations} (h : d.EqUpToPaint e) (config : Config)
    (parent : Direction) :
    (Style.resolve config parent d).unpainted = (Style.resolve config parent e).unpainted := by
  simp (disch := decide) only [Style.resolve, Style.unpainted, Border.unpainted,
    Declarations.edges, Declarations.nonNegative?, Declarations.weight, Length.ofDeclarations,
    Declarations.firstFloat?, Declarations.paddingKeys, List.findSome?, List.any_cons, List.any_nil,
    h.float?, h.string?, h.bool?]

/-! ## 2. Nodes -/

/-- What two nodes have in common if they differ in paint and in actions only. -/
structure NodeData.EqUpToPaint (d e : NodeData) : Prop where
  type : d.type = e.type
  style : d.style.EqUpToPaint e.style
  content : d.content = e.content
  label : d.label = e.label

namespace Node

mutual

def EqUpToPaint : Node → Node → Prop
  | .mk d ns, .mk e ms => d.EqUpToPaint e ∧ AllEqUpToPaint ns ms

def AllEqUpToPaint : List Node → List Node → Prop
  | [], [] => True
  | n :: ns, m :: ms => n.EqUpToPaint m ∧ AllEqUpToPaint ns ms
  | _, _ => False

end

mutual

theorem EqUpToPaint.refl (n : Node) : n.EqUpToPaint n := by
  cases n with
  | mk d ns => exact ⟨⟨rfl, fun _ _ => rfl, rfl, rfl⟩, AllEqUpToPaint.refl ns⟩

theorem AllEqUpToPaint.refl (ns : List Node) : AllEqUpToPaint ns ns := by
  cases ns with
  | nil => trivial
  | cons n rest => exact ⟨EqUpToPaint.refl n, AllEqUpToPaint.refl rest⟩

end

end Node

/-! ## 3. Visuals of nodes -/

namespace Visual

variable (config : Config) (measure : Measurer) (images images' : ImageSource)

section Parts

variable {style style' : Style} {d e : NodeData} (parent : Direction)

theorem unpainted_ofView (h : style.unpainted = style'.unpainted) {vs ws : List Visual}
    (hv : unpaintedAll vs = unpaintedAll ws) :
    (container (style.box config parent .unknown)
      ⟨style.direction, style.justifyContent, style.alignItems⟩ vs).unpainted =
    (container (style'.box config parent .unknown)
      ⟨style'.direction, style'.justifyContent, style'.alignItems⟩ ws).unpainted := by
  show container (style.unpainted.box config parent .unknown).unpainted
    ⟨style.unpainted.direction, style.unpainted.justifyContent, style.unpainted.alignItems⟩
    (unpaintedAll vs) = _
  rw [h, hv]
  rfl

theorem unpainted_ofText (h : style.unpainted = style'.unpainted) (hd : d.content = e.content) :
    (ofText ⟨config, measure, images⟩ parent style d).unpainted =
      (ofText ⟨config, measure, images'⟩ parent style' e).unpainted := by
  show (ofText ⟨config, measure, images⟩ parent style.unpainted d).unpainted = _
  rw [h, ofText, hd]
  rfl

theorem unpainted_ofImage (h : style.unpainted = style'.unpainted) :
    (ofImage ⟨config, measure, images⟩ parent style d).unpainted =
      (ofImage ⟨config, measure, images'⟩ parent style' e).unpainted := by
  show (ofImage ⟨config, measure, images⟩ parent style.unpainted d).unpainted = _
  rw [h]
  rfl

theorem unpainted_withButtonDefaults (b : ButtonDefaults) (natural : NaturalSize) :
    ((style.withButtonDefaults b).box config parent natural).unpainted =
      ((style.unpainted.withButtonDefaults b).box config parent natural).unpainted := by
  -- a default radius is paint: declared or not, it leaves no trace
  have hb : ((style.withButtonDefaults b).box config parent natural).border.unpainted =
      style.border.unpainted := by
    show (if style.hasBorderRadius then _ else _ : Border).unpainted = _
    split <;> rfl
  rw [Box.unpainted, hb]
  rfl

theorem unpainted_ofButton (h : style.unpainted = style'.unpainted) (hd : d.label = e.label) :
    (ofButton ⟨config, measure, images⟩ parent style d).unpainted =
      (ofButton ⟨config, measure, images'⟩ parent style' e).unpainted := by
  have hp (s : Style) : (ofButton ⟨config, measure, images'⟩ parent s e).unpainted =
      (ofButton ⟨config, measure, images'⟩ parent s.unpainted e).unpainted := by
    rw [ofButton, ofButton, unpainted, unpainted, unpainted_withButtonDefaults]
    rfl
  have he : (ofButton ⟨config, measure, images⟩ parent style d).unpainted =
      (ofButton ⟨config, measure, images'⟩ parent style e).unpainted := by
    rw [ofButton, ofButton, hd]
    rfl
  rw [he, hp, h, ← hp]

theorem unpainted_ofUnknown (h : style.unpainted = style'.unpainted) (name : String) :
    (ofUnknown ⟨config, measure, images⟩ parent style name).unpainted =
      (ofUnknown ⟨config, measure, images'⟩ parent style' name).unpainted := by
  show (ofUnknown ⟨config, measure, images⟩ parent style.unpainted name).unpainted = _
  rw [h]
  rfl

end Parts

mutual

theorem unpainted_ofNode (parent : Direction) {n m : Node} (h : n.EqUpToPaint m) :
    (ofNode ⟨config, measure, images⟩ parent n).unpainted =
      (ofNode ⟨config, measure, images'⟩ parent m).unpainted := by
  obtain ⟨d, ns⟩ := n
  obtain ⟨e, ms⟩ := m
  obtain ⟨hd, hs⟩ := h
  have hstyle := unpainted_resolve hd.style config parent
  rw [ofNode, ofNode, hd.type]
  cases e.type with
  | view =>
    have hdir : (Style.resolve config parent d.style).direction =
        (Style.resolve config parent e.style).direction := (congrArg Style.direction hstyle :)
    exact unpainted_ofView config parent hstyle (by rw [hdir]; exact unpainted_ofNodes _ hs)
  | text => exact unpainted_ofText config measure images images' parent hstyle hd.content
  | image => exact unpainted_ofImage config measure images images' parent hstyle
  | button => exact unpainted_ofButton config measure images images' parent hstyle hd.label
  | unknown name => exact unpainted_ofUnknown config measure images images' parent hstyle name

theorem unpainted_ofNodes (parent : Direction) {ns ms : List Node}
    (h : Node.AllEqUpToPaint ns ms) :
    unpaintedAll (ofNodes ⟨config, measure, images⟩ parent ns) =
      unpaintedAll (ofNodes ⟨config, measure, images'⟩ parent ms) := by
  match ns, ms, h with
  | [], [], _ => rfl
  | n :: ns, m :: ms, ⟨hn, hs⟩ =>
    rw [ofNodes, ofNodes, unpaintedAll, unpaintedAll, unpainted_ofNode parent hn,
      unpainted_ofNodes parent hs]

end

end Visual

/-- Visuals that are equal without paint have the same layout. -/
theorem Visual.placement_eq_of_unpainted_eq {v w : Visual} (h : v.unpainted = w.unpainted)
    (room : Available) (measure : Measurer) :
    v.placement room measure = w.placement room measure := by
  rw [← v.placement_unpainted, h, w.placement_unpainted]

/-- Templates that are equal up to paint have the same layout in every room, whatever the states of
their images are; so no image moves a frame when it arrives or fails. -/
theorem Template.layout_eq_of_eqUpToPaint (config : Config) (measure ruler : Measurer)
    (images images' : ImageSource) (room : Available) (t t' : Template)
    (h : t.root.EqUpToPaint t'.root) :
    (t.render ⟨config, measure, images⟩).placement room ruler =
        (t'.render ⟨config, measure, images'⟩).placement room ruler ∧
      (t.card ⟨config, measure, images⟩ room).layout =
        (t.card ⟨config, measure, images'⟩ room).layout := by
  constructor
  · exact Visual.placement_eq_of_unpainted_eq
      (Visual.unpainted_ofNode config measure images images' .column h) room ruler
  · exact Visual.placement_eq_of_unpainted_eq
      (Visual.unpainted_ofNode config measure images images' .column (.refl t.root)) room measure

/-- A banner over a button, painted in two ways. -/
def bannerTemplate (url color : String) (radius : Float) : Template :=
  let banner : Node := .mk
    { type := .image
      style := ⟨[("aspectRatio", .string "2/1"), ("borderRadius", .number (.real radius)),
        ("fillWidth", .bool true)]⟩
      content := none, url := some url, label := none, actionUrl := none, interactionId := none } []
  let button : Node := .mk
    { type := .button
      style := ⟨[("backgroundColor", .string color), ("weight", .number (.natural 2))]⟩
      content := none, url := none, label := some "Go", actionUrl := some url
      interactionId := some color } []
  ⟨.mk
    { type := .view
      style := ⟨[("borderColor", .string color), ("borderWidth", .number (.natural 1))]⟩
      content := none, url := none, label := none, actionUrl := none, interactionId := none }
    [banner, button]⟩

theorem bannerTemplate_eqUpToPaint (url url' color color' : String) (radius radius' : Float) :
    (bannerTemplate url color radius).root.EqUpToPaint
      (bannerTemplate url' color' radius').root := by
  refine ⟨⟨rfl, ?_, rfl, rfl⟩, ⟨⟨rfl, ?_, rfl, rfl⟩, trivial⟩, ⟨⟨rfl, ?_, rfl, rfl⟩, trivial⟩,
    trivial⟩
  -- the entries that are not for the painter are the same at all three nodes
  · exact Json.Members.AgreeOff.of_filter rfl
  · exact Json.Members.AgreeOff.of_filter rfl
  · exact Json.Members.AgreeOff.of_filter rfl

/-- Another address, other colours and a picture that has arrived leave the banner in its place. -/
theorem bannerTemplate_layout_eq :
    let before := bannerTemplate "https://example.com/a.png" "red" 4
    let after := bannerTemplate "no address" "#00F" 0
    let picture : ImageSource := fun _ => .loaded (.blank 3 5)
    before.root.EqUpToPaint after.root ∧
      (before.render ⟨{}, Config.measure {}, fun _ => .pending⟩).placement ⟨375, none⟩
          (Config.measure {}) =
        (after.render ⟨{}, Config.measure {}, picture⟩).placement ⟨375, none⟩
          (Config.measure {}) :=
  have h := bannerTemplate_eqUpToPaint "https://example.com/a.png" "no address" "red" "#00F" 4 0
  ⟨h, (Template.layout_eq_of_eqUpToPaint {} (Config.measure {}) (Config.measure {})
    (fun _ => .pending) (fun _ => .loaded (.blank 3 5)) ⟨375, none⟩ _ _ h).1⟩

end ContentCard
