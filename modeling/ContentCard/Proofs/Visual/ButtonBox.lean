import ContentCard.Proofs.Style.Usable
import ContentCard.Proofs.Visual.Children

/-!
# Boxes of buttons

A button has the box of a text with the same style, but for four defaults.  A default gives way
where something counts that was declared in its place: whether this is so is looked up under the
same keys, by the same tests, as what is declared.  So no declared edge is replaced, and a default
stands only where the text has nothing.
-/

namespace ContentCard

open Json

/-! ## 1. Entries that count -/

namespace Declarations

/-- An entry is a number, finite as those of a JSON text are, and in range when it is narrowed. -/
def Holds (d : Declarations) (r : Range) (key : String) : Prop :=
  ∃ v : Json.Number, d.get? key = some (.number v) ∧ v.toFloat.isFinite ∧ r.test v.narrowed

variable {d : Declarations} {r : Range} {key : String}

theorem isSome_filter_float?_iff : ((d.float? key).filter r.test).isSome ↔ d.Holds r key := by
  rw [Option.isSome_iff_exists]
  constructor
  · rintro ⟨x, hx⟩
    obtain ⟨hx, hrange⟩ := Option.filter_eq_some_iff.mp hx
    obtain ⟨y, hy, rfl⟩ := Option.map_eq_some_iff.mp hx
    obtain ⟨hy, hfinite⟩ := Option.filter_eq_some_iff.mp hy
    obtain ⟨v, hv, rfl⟩ := Option.map_eq_some_iff.mp hy
    exact ⟨v, get?_of_jsonNumber? hv, hfinite, hrange⟩
  · rintro ⟨v, hv, hfinite, hrange⟩
    refine ⟨v.narrowed, Option.filter_eq_some_iff.mpr ⟨?_, hrange⟩⟩
    rw [float?, number?, hv]
    exact congrArg (Option.map _) (Option.filter_eq_some_iff.mpr ⟨rfl, hfinite⟩)

theorem isSome_nonNegative?_iff : (d.nonNegative? key).isSome ↔ d.Holds .nonNegative key :=
  isSome_filter_float?_iff (r := .nonNegative)

theorem isSome_float?_iff : (d.float? key).isSome ↔ d.Holds .any key := by
  have hany : (d.float? key).filter Range.any.test = d.float? key := by
    cases d.float? key <;> rfl
  rw [← isSome_filter_float?_iff, hany]

/-- A side of which no key counts has no width. -/
theorem get_edges_of_not_holds {name : String} {side : Side}
    (h : ∀ key ∈ side.keys name, ¬d.Holds r key) : (d.edges name r.test).get side = 0 := by
  have hnone : ((side.keys name).findSome? fun key => (d.float? key).filter r.test) = none :=
    List.findSome?_eq_none_iff.mpr fun key hkey =>
      Option.not_isSome_iff_eq_none.mp (mt isSome_filter_float?_iff.mp (h key hkey))
  rw [get_edges, hnone, Option.getD_none]

end Declarations

/-- Edges are equal if all four are. -/
theorem Edges.eq_of_get {e f : Edges} (h : ∀ side, e.get side = f.get side) : e = f := by
  obtain ⟨top, right, bottom, left⟩ := e
  obtain rfl : top = f.top := h .top
  obtain rfl : right = f.right := h .right
  obtain rfl : bottom = f.bottom := h .bottom
  obtain rfl : left = f.left := h .left
  rfl

namespace Style

variable {config : Config} {parent : Direction} {d : Declarations}

theorem hasPadding_resolve : (resolve config parent d).hasPadding ↔
    ∃ key ∈ Declarations.paddingKeys, d.Holds .nonNegative key := by
  simp only [resolve, List.any_eq_true, Declarations.isSome_nonNegative?_iff]

theorem hasMarginBottom_resolve : (resolve config parent d).hasMarginBottom ↔
    ∃ key ∈ ["marginBottom", "marginVertical", "margin"], d.Holds .any key := by
  simp only [resolve, Declarations.firstFloat?, List.findSome?_isSome_iff,
    Declarations.isSome_float?_iff]

theorem hasBorderRadius_resolve :
    (resolve config parent d).hasBorderRadius ↔ d.Holds .nonNegative "borderRadius" :=
  Declarations.isSome_nonNegative?_iff

theorem isSome_background_resolve : (resolve config parent d).background.isSome ↔
    ∃ name color, d.get? "backgroundColor" = some (.string name) ∧
      Color.parse? name = some color := by
  show ((d.string? "backgroundColor").bind Color.parse?).isSome ↔ _
  rw [Declarations.string?]
  cases d.get? "backgroundColor" with
  | none => simp
  | some value =>
    cases value with
    | string name => simp [Value.string?, Option.isSome_iff_exists]
    | null | bool | number | array | object => simp [Value.string?]

end Style

/-! ## 2. Defaults -/

/-- A default gives way to what is declared.  With something declared a button has what a text has,
and without it the button has the default and the text has nothing. -/
def GivesWay {α : Type} (default nothing : α) (declared : Prop) (button text : α) : Prop :=
  (declared → button = text) ∧ (¬declared → button = default ∧ text = nothing)

theorem givesWay_ite {α : Type} {default nothing text : α} {declared : Prop} {flag : Bool}
    (hflag : flag ↔ declared) (hnothing : ¬declared → text = nothing) :
    GivesWay default nothing declared (if flag then text else default) text :=
  ⟨fun h => if_pos (hflag.mpr h), fun h => ⟨if_neg (mt hflag.mp h), hnothing h⟩⟩

namespace Style

variable (config : Config) (parent : Direction) (d : Declarations) (b : ButtonDefaults)

theorem padding_withButtonDefaults :
    GivesWay (.symmetric b.paddingVertical b.paddingHorizontal) .zero
      (∃ key ∈ Declarations.paddingKeys, d.Holds .nonNegative key)
      ((resolve config parent d).withButtonDefaults b).padding
      (resolve config parent d).padding := by
  refine givesWay_ite hasPadding_resolve fun h => Edges.eq_of_get fun side => ?_
  have hside : ∀ key ∈ side.keys "padding", ¬d.Holds .nonNegative key := by
    have hkeys : ∀ key ∈ side.keys "padding", key ∈ Declarations.paddingKeys := by
      cases side <;> decide
    exact fun key hkey hholds => h ⟨key, hkeys key hkey, hholds⟩
  calc
    (resolve config parent d).padding.get side = 0 := Declarations.get_edges_of_not_holds hside
    _ = Edges.zero.get side := by cases side <;> rfl

theorem bottomMargin_withButtonDefaults :
    GivesWay b.bottomMargin 0
      (∃ key ∈ ["marginBottom", "marginVertical", "margin"], d.Holds .any key)
      ((resolve config parent d).withButtonDefaults b).margin.bottom
      (resolve config parent d).margin.bottom := by
  have hbottom : ((resolve config parent d).withButtonDefaults b).margin.bottom =
      if (resolve config parent d).hasMarginBottom then (resolve config parent d).margin.bottom
      else b.bottomMargin := apply_ite Edges.bottom _ _ _
  rw [hbottom]
  refine givesWay_ite hasMarginBottom_resolve fun h => ?_
  have hbottom : (d.edges "margin" Range.any.test).get .bottom = 0 :=
    Declarations.get_edges_of_not_holds fun key hkey hholds => h ⟨key, hkey, hholds⟩
  exact hbottom

theorem radius_withButtonDefaults :
    GivesWay b.borderRadius 0 (d.Holds .nonNegative "borderRadius")
      ((resolve config parent d).withButtonDefaults b).border.radius
      (resolve config parent d).border.radius := by
  have hradius : ((resolve config parent d).withButtonDefaults b).border.radius =
      if (resolve config parent d).hasBorderRadius then (resolve config parent d).border.radius
      else b.borderRadius := apply_ite Border.radius _ _ _
  rw [hradius]
  refine givesWay_ite hasBorderRadius_resolve fun h => ?_
  have hnone : d.nonNegative? "borderRadius" = none :=
    Option.not_isSome_iff_eq_none.mp (mt Declarations.isSome_nonNegative?_iff.mp h)
  show (d.nonNegative? "borderRadius").getD 0 = 0
  rw [hnone, Option.getD_none]

theorem background_withButtonDefaults :
    GivesWay (some b.background) none
      (∃ name color, d.get? "backgroundColor" = some (.string name) ∧
        Color.parse? name = some color)
      ((resolve config parent d).withButtonDefaults b).background
      (resolve config parent d).background := by
  have hbackground : ((resolve config parent d).withButtonDefaults b).background =
      if (resolve config parent d).background.isSome then (resolve config parent d).background
      else some b.background := by
    show some ((resolve config parent d).background.getD b.background) = _
    cases (resolve config parent d).background <;> rfl
  rw [hbackground]
  refine givesWay_ite isSome_background_resolve fun h => ?_
  exact Option.not_isSome_iff_eq_none.mp (mt isSome_background_resolve.mp h)

end Style

/-! ## 3. Buttons and texts -/

namespace Visual

theorem box_ofNode_button (s : Surroundings) (parent : Direction) {n : Node}
    (hn : n.data.type = .button) :
    ∃ natural, (ofNode s parent n).box =
      ((Style.resolve s.config parent n.data.style).withButtonDefaults s.config.button).box
        s.config parent natural := by
  rw [ofNode_of_button s parent hn]
  exact ⟨_, rfl⟩

theorem box_ofNode_text (s : Surroundings) (parent : Direction) {n : Node}
    (hn : n.data.type = .text) :
    ∃ natural, (ofNode s parent n).box =
      (Style.resolve s.config parent n.data.style).box s.config parent natural := by
  rw [ofNode_of_text s parent hn]
  exact ⟨_, rfl⟩

/-- The box of a button beside that of a text with the same style, in the same parent.  Four
defaults give way to what is declared, and nothing else is different but the size of the
content. -/
theorem button_box_of_text (s : Surroundings) (parent : Direction) {a b : Node}
    (ha : a.data.type = .button) (hb : b.data.type = .text) (hstyle : a.data.style = b.data.style) :
    let d := b.data.style
    let defaults := s.config.button
    let button := (ofNode s parent a).box
    let text := (ofNode s parent b).box
    GivesWay (.symmetric defaults.paddingVertical defaults.paddingHorizontal) .zero
        (∃ key ∈ ["padding", "paddingHorizontal", "paddingVertical", "paddingTop", "paddingRight",
          "paddingBottom", "paddingLeft"], d.Holds .nonNegative key)
        button.padding text.padding ∧
      GivesWay defaults.bottomMargin 0
        (∃ key ∈ ["marginBottom", "marginVertical", "margin"], d.Holds .any key)
        button.margin.bottom text.margin.bottom ∧
      GivesWay defaults.borderRadius 0 (d.Holds .nonNegative "borderRadius")
        button.border.radius text.border.radius ∧
      GivesWay (some defaults.background) none
        (∃ name color, d.get? "backgroundColor" = some (.string name) ∧
          Color.parse? name = some color)
        button.background text.background ∧
      button = { text with
        background := button.background
        border := { text.border with radius := button.border.radius }
        margin := { text.margin with bottom := button.margin.bottom }
        padding := button.padding
        natural := button.natural } := by
  intro d defaults button text
  obtain ⟨buttonSize, hbutton⟩ := box_ofNode_button s parent ha
  obtain ⟨textSize, htext⟩ := box_ofNode_text s parent hb
  rw [hstyle] at hbutton
  change button = _ at hbutton
  change text = _ at htext
  rw [hbutton, htext]
  refine ⟨Style.padding_withButtonDefaults s.config parent d defaults,
    Style.bottomMargin_withButtonDefaults s.config parent d defaults,
    Style.radius_withButtonDefaults s.config parent d defaults,
    Style.background_withButtonDefaults s.config parent d defaults, ?_⟩
  -- what is left are the two records, by what was declared
  dsimp only [Style.box, Style.withButtonDefaults]
  split <;> split <;> rfl

/-- A node whose style declares one padding, and a radius that is no number. -/
def unevenlyPadded (type : NodeType) : Node := .mk
  { type, style := ⟨[("borderRadius", .string "8"), ("paddingTop", .number (.natural 3))]⟩
    content := none, url := none, label := none, actionUrl := none, interactionId := none } []

theorem button_box_of_unevenlyPadded :
    let s : Surroundings := ⟨{}, Estimate.measure {}, fun _ => .pending⟩
    let button := (ofNode s .row (unevenlyPadded .button)).box
    let text := (ofNode s .row (unevenlyPadded .text)).box
    (unevenlyPadded .button).data.style = (unevenlyPadded .text).data.style ∧
      button.padding = text.padding ∧ button.border.radius = 4 ∧ text.border.radius = 0 := by
  intro s button text
  obtain ⟨hpadding, -, hradius, -, -⟩ :=
    button_box_of_text s .row (a := unevenlyPadded .button) (b := unevenlyPadded .text) rfl rfl rfl
  have htop : (unevenlyPadded .text).data.style.Holds .nonNegative "paddingTop" :=
    ⟨.natural 3, rfl, by decide +kernel, by decide +kernel⟩
  have hnone : ¬(unevenlyPadded .text).data.style.Holds .nonNegative "borderRadius" := by
    rintro ⟨v, hv, -⟩
    cases hv
  exact ⟨rfl, hpadding.1 ⟨"paddingTop", by decide, htop⟩, hradius.2 hnone⟩

end Visual

end ContentCard
