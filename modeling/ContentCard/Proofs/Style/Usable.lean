import ContentCard.Proofs.Json.Members
import ContentCard.Proofs.Style.Lengths

/-!
# Usable styles

Every number of a style is a narrowed JSON number that was in range, or a default.  So it is in
range as well, and what is left to ask is whether narrowing has made it infinite.  The quotient of
an aspect ratio can also become infinite, or zero, although both of its sides are in range.
-/

namespace ContentCard

open Json

/-! ## 1. Ranges -/

/-- What an entry has to be to count. -/
inductive Range
  | any
  | nonNegative
  | positive

namespace Range

def test : Range → Float32 → Bool
  | any, _ => true
  | nonNegative, x => 0 ≤ x
  | positive, x => 0 < x

/-- The number passes the test when it is narrowed.  Half of the least positive number of 32 bits
counts as zero. -/
def admits : Range → Json.Number → Bool
  | any, _ => true
  | nonNegative, v => -(1 / 2 ^ 150) ≤ v.value
  | positive, v => 1 / 2 ^ 150 < v.value

theorem test_narrowed (r : Range) {v : Json.Number} (hv : v.IsValid) :
    r.test v.narrowed = r.admits v := by
  cases r with
  | any => rfl
  | nonNegative => exact decide_eq_decide.mpr (Json.Number.nonneg_narrowed_iff hv)
  | positive => exact decide_eq_decide.mpr (Json.Number.pos_narrowed_iff hv)

theorem filter_map_narrowed (r : Range) {o : Option Json.Number} (ho : ∀ v ∈ o, v.IsValid) :
    (o.map Json.Number.narrowed).filter r.test =
      (o.filter r.admits).map Json.Number.narrowed := by
  cases o with
  | none => rfl
  | some v =>
    rw [Option.map_some, Option.filter_some, Option.filter_some, r.test_narrowed (ho v rfl)]
    split <;> rfl

end Range

/-! ## 2. Entries that are numbers -/

namespace Declarations

/-- The numbers among the entries are those of a JSON text. -/
def IsValid (d : Declarations) : Prop := ∀ key v, d.get? key = some (.number v) → v.IsValid

def jsonNumber? (d : Declarations) (key : String) : Option Json.Number :=
  (d.get? key).bind Value.number?

variable {d : Declarations}

theorem get?_of_jsonNumber? {key : String} {v : Json.Number} (h : d.jsonNumber? key = some v) :
    d.get? key = some (.number v) := by
  obtain ⟨w, hw, hv⟩ := Option.bind_eq_some_iff.mp h
  cases w with
  | number n =>
    cases hv
    exact hw
  | null | bool | string | array | object => nomatch hv

theorem eq_of_get?_single {k key : String} {v w : Value} (h : get? ⟨[(k, v)]⟩ key = some w) :
    w = v := by
  change Members.get? [(k, v)] key = _ at h
  rw [Members.get?_cons] at h
  split at h
  · cases h
    rfl
  · nomatch h

theorem isValid_single (key : String) {v : Json.Number} (hv : v.IsValid) :
    IsValid ⟨[(key, .number v)]⟩ := by
  intro k w hw
  rwa [Value.number.inj (eq_of_get?_single hw)]

variable (hd : d.IsValid)

include hd

theorem isValid_of_jsonNumber? {key : String} {v : Json.Number} (h : d.jsonNumber? key = some v) :
    v.IsValid :=
  hd key v (get?_of_jsonNumber? h)

theorem float?_eq_map (key : String) :
    d.float? key = (d.jsonNumber? key).map Json.Number.narrowed := by
  cases h : d.jsonNumber? key with
  | none =>
    rw [jsonNumber?] at h
    rw [float?, number?, h]
    rfl
  | some v => exact float?_of_get? (isValid_of_jsonNumber? hd h) (get?_of_jsonNumber? h)

theorem filter_float? (r : Range) (key : String) :
    (d.float? key).filter r.test =
      ((d.jsonNumber? key).filter r.admits).map Json.Number.narrowed := by
  rw [float?_eq_map hd]
  exact r.filter_map_narrowed fun v hv => isValid_of_jsonNumber? hd hv

theorem findSome?_filter_float? (r : Range) (keys : List String) :
    (keys.findSome? fun key => (d.float? key).filter r.test) =
      (keys.findSome? fun key => (d.jsonNumber? key).filter r.admits).map Json.Number.narrowed := by
  rw [List.map_findSome?]
  congr 1
  funext key
  exact filter_float? hd r key

/-- Of `weight` and `flex` the first number counts, in range or not. -/
theorem weight_eq : d.weight =
    (((["weight", "flex"].findSome? d.jsonNumber?).filter Range.nonNegative.admits).map
      Json.Number.narrowed).getD 0 := by
  have hfirst : ["weight", "flex"].findSome? d.jsonNumber? =
      (d.jsonNumber? "weight").or (d.jsonNumber? "flex") := by
    rw [List.findSome?_cons, List.findSome?_singleton]
    cases d.jsonNumber? "weight" <;> rfl
  have hvalid : ∀ v ∈ (d.jsonNumber? "weight").or (d.jsonNumber? "flex"), v.IsValid := by
    intro v hv
    obtain hv | ⟨-, hv⟩ := Option.or_eq_some_iff.mp hv
    · exact isValid_of_jsonNumber? hd hv
    · exact isValid_of_jsonNumber? hd hv
  rw [hfirst, ← Range.nonNegative.filter_map_narrowed hvalid, Option.map_or, ← float?_eq_map hd,
    ← float?_eq_map hd]
  rfl

end Declarations

/-! ## 3. The numbers of a style -/

inductive Side
  | top
  | right
  | bottom
  | left

/-- A side's own key, that of its axis, and that of all four sides. -/
def Side.keys (name : String) : Side → List String
  | top => [name ++ "Top", name ++ "Vertical", name]
  | right => [name ++ "Right", name ++ "Horizontal", name]
  | bottom => [name ++ "Bottom", name ++ "Vertical", name]
  | left => [name ++ "Left", name ++ "Horizontal", name]

def Edges.get (e : Edges) : Side → Float32
  | .top => e.top
  | .right => e.right
  | .bottom => e.bottom
  | .left => e.left

theorem Declarations.getD_findSome? (f : String → Option Float32) (x y z : String)
    (default : Float32) : ([x, y, z].findSome? f).getD default =
      (f x).getD ((f y).getD ((f z).getD default)) := by
  simp only [List.findSome?_cons, List.findSome?_nil]
  cases f x <;> cases f y <;> cases f z <;> rfl

theorem Declarations.get_edges (d : Declarations) (name : String) (valid : Float32 → Bool)
    (side : Side) : (d.edges name valid).get side =
      ((side.keys name).findSome? fun key => (d.float? key).filter valid).getD 0 := by
  cases side <;> rw [Side.keys, getD_findSome?] <;> rfl

namespace Length

def points? : Length → Option Float32
  | points p => some p
  | _ => none

theorem points?_ofDeclarations {d : Declarations} (hd : d.IsValid) (key : String) :
    (ofDeclarations d key).points? =
      ((d.jsonNumber? key).filter Range.nonNegative.admits).map Json.Number.narrowed := by
  rw [ofDeclarations, Declarations.float?_eq_map hd]
  cases h : d.jsonNumber? key with
  | none =>
    -- a text is a percentage or nothing
    cases (d.string? key).bind percentage? <;> rfl
  | some v =>
    have hv := Declarations.isValid_of_jsonNumber? hd h
    show (ofNumber v.narrowed).points? = _
    rw [Option.filter_some]
    have hadmits : Range.nonNegative.admits v ↔ RoundsToPoints v.value := decide_eq_true_iff
    by_cases hpoints : RoundsToPoints v.value
    · rw [ofNumber_narrowed_of_points hv hpoints, if_pos (hadmits.mpr hpoints)]
      rfl
    · rw [if_neg (mt hadmits.mp hpoints)]
      by_cases hfill : RoundsToFill v.value
      · rw [ofNumber_narrowed_of_fill hv hfill]
        rfl
      · rw [ofNumber_narrowed_of_auto hv hfill hpoints]
        rfl

end Length

namespace Style

/-- What a style has a number for. -/
inductive Quantity
  | borderWidth
  | borderRadius
  | margin (side : Side)
  | padding (side : Side)
  | weight
  | fontSize
  | length (axis : Axis)

namespace Quantity

/-- The keys of a quantity, the one that counts most first. -/
def keys : Quantity → List String
  | borderWidth => ["borderWidth"]
  | borderRadius => ["borderRadius"]
  | margin side => side.keys "margin"
  | padding side => side.keys "padding"
  | weight => ["weight", "flex"]
  | fontSize => ["fontSize"]
  | length axis => [axis.lengthKey]

def range : Quantity → Range
  | margin _ => .any
  | fontSize => .positive
  | _ => .nonNegative

/-- A length without points has no number. -/
def default (config : Config) : Quantity → Option Float32
  | fontSize => some config.fontSize
  | length _ => none
  | _ => some 0

/-- The JSON number of a quantity is the first one in range.  A weight is the first number at all,
and counts only along a main axis. -/
def source? (parent : Direction) (d : Declarations) (q : Quantity) : Option Json.Number :=
  match q with
  | weight =>
    if parent.mainAxis?.isSome then
      (weight.keys.findSome? d.jsonNumber?).filter weight.range.admits
    else none
  | q => q.keys.findSome? fun key => (d.jsonNumber? key).filter q.range.admits

end Quantity

def quantity (style : Style) : Quantity → Option Float32
  | .borderWidth => some style.border.width
  | .borderRadius => some style.border.radius
  | .margin side => some (style.margin.get side)
  | .padding side => some (style.padding.get side)
  | .weight => some style.weight
  | .fontSize => some style.fontSize
  | .length axis => (style.length axis).points?

/-- Every number is finite and in its range. -/
structure IsUsable (style : Style) : Prop where
  quantity : ∀ q x, style.quantity q = some x → x.isFinite ∧ q.range.test x
  percent : ∀ axis p, style.length axis = .percent p → p.isFinite
  aspectRatio : ∀ r, style.aspectRatio = some r → r.isFinite ∧ 0 < r

section

variable (config : Config) (parent : Direction) {d : Declarations} (hd : d.IsValid)

include hd

/-- Every number of a style comes from its source, or is the default. -/
theorem quantity_resolve (q : Quantity) : (resolve config parent d).quantity q =
    ((q.source? parent d).map Json.Number.narrowed).or (q.default config) := by
  have hsingle (key : String) (r : Range) (default : Float32) :
      some (((d.float? key).filter r.test).getD default) =
        (([key].findSome? fun key => (d.jsonNumber? key).filter r.admits).map
          Json.Number.narrowed).or (some default) := by
    rw [List.findSome?_singleton, ← Declarations.filter_float? hd, Option.or_some]
  have hedges (name : String) (r : Range) (side : Side) :
      some ((d.edges name r.test).get side) =
        (((side.keys name).findSome? fun key => (d.jsonNumber? key).filter r.admits).map
          Json.Number.narrowed).or (some 0) := by
    rw [Declarations.get_edges, Declarations.findSome?_filter_float? hd, Option.or_some]
  cases q with
  | borderWidth => exact hsingle "borderWidth" .nonNegative 0
  | borderRadius => exact hsingle "borderRadius" .nonNegative 0
  | fontSize => exact hsingle "fontSize" .positive config.fontSize
  | margin side => exact hedges "margin" .any side
  | padding side => exact hedges "padding" .nonNegative side
  | weight =>
    show some (if parent.mainAxis?.isSome then d.weight else 0) =
      ((if parent.mainAxis?.isSome then
        (["weight", "flex"].findSome? d.jsonNumber?).filter Range.nonNegative.admits
      else none).map Json.Number.narrowed).or (some 0)
    split
    · rw [Declarations.weight_eq hd, Option.or_some]
    · rfl
  | length axis =>
    show ((resolve config parent d).length axis).points? =
      (([axis.lengthKey].findSome? fun key =>
        (d.jsonNumber? key).filter Range.nonNegative.admits).map Json.Number.narrowed).or none
    rw [length_resolve, Length.points?_ofDeclarations hd, List.findSome?_singleton, Option.or_none]

end

end Style

/-! ## 4. Aspect ratios -/

/-- The two sides of an aspect ratio, both of them finite and positive. -/
structure AspectSides (text : String) (w h : Float32) : Prop where
  before :
    Number.float32? (String.ofList (Text.trimList (text.toList.takeWhile (· ≠ '/')))) = some w
  after : ∃ slash rest, text.toList.dropWhile (· ≠ '/') = slash :: rest ∧
    Number.float32? (String.ofList (Text.trimList rest)) = some h
  pos_left : 0 < w
  pos_right : 0 < h
  isFinite_left : w.isFinite
  isFinite_right : h.isFinite

theorem aspectRatio?_eq_some_iff {text : String} {r : Float32} :
    aspectRatio? text = some r ↔ ∃ w h, AspectSides text w h ∧ r = w / h := by
  rw [aspectRatio?]
  dsimp only
  constructor
  · intro hr
    split at hr
    next => nomatch hr
    next slash rest hrest =>
      split at hr
      next w h hw hh =>
        split at hr
        next hsides =>
          cases hr
          exact ⟨w, h, ⟨hw, ⟨slash, rest, hrest, hh⟩, hsides.1, hsides.2.1, hsides.2.2.1,
            hsides.2.2.2⟩, rfl⟩
        next => nomatch hr
      next => nomatch hr
  · rintro ⟨w, h, ⟨hw, ⟨slash, rest, hrest, hh⟩, hpos, hpos', hfinite, hfinite'⟩, rfl⟩
    rw [hrest]
    simp only [hw, hh]
    exact if_pos ⟨hpos, hpos', hfinite, hfinite'⟩

theorem AspectSides.rounds {text : String} {w h : Float32} (hsides : AspectSides text w h) :
    Number.Rounds (Number.value w / Number.value h) (w / h) := by
  have hpos := (Number.lt_iff_value_lt rfl hsides.isFinite_right).mp hsides.pos_right
  rw [Number.value_zero] at hpos
  exact .div hsides.isFinite_left hsides.isFinite_right hpos.ne'

theorem isFinite_of_percentage? {text : String} {p : Float32} (h : percentage? text = some p) :
    p.isFinite := by
  rw [percentage?] at h
  split at h
  · exact (Option.filter_eq_some_iff.mp h).2
  · nomatch h

theorem Length.isFinite_of_ofDeclarations_eq_percent {d : Declarations} {key : String}
    {p : Float32} (h : ofDeclarations d key = .percent p) : p.isFinite := by
  rw [ofDeclarations] at h
  cases hv : d.float? key with
  | some v =>
    -- a number is no percentage
    rw [hv] at h
    change ofNumber v = .percent p at h
    rw [ofNumber] at h
    split_ifs at h
  | none =>
    rw [hv] at h
    cases hp : (d.string? key).bind percentage? with
    | none =>
      rw [hp] at h
      cases h
    | some q =>
      rw [hp] at h
      obtain rfl := percent.inj h
      obtain ⟨text, -, htext⟩ := Option.bind_eq_some_iff.mp hp
      exact isFinite_of_percentage? htext

/-! ## 5. Usable styles -/

namespace Config

def numbers (config : Config) : List Float32 :=
  [config.fontSize, config.imageDefaultHeight, config.lineHeightExtra, config.charWidthFactor,
    config.button.borderRadius, config.button.bottomMargin, config.button.paddingHorizontal,
    config.button.paddingVertical]

def IsUsable (config : Config) : Prop := ∀ x ∈ config.numbers, x.isFinite ∧ 0 < x

theorem isUsable_default : IsUsable {} := by
  rw [IsUsable]
  decide

end Config

namespace Style

section

variable (config : Config) (parent : Direction) {d : Declarations} (hd : d.IsValid)

theorem Quantity.source?_admits {q : Quantity} {v : Json.Number}
    (h : q.source? parent d = some v) : q.range.admits v ∧ ∃ key, d.jsonNumber? key = some v := by
  have hentry : ∀ {keys : List String} {r : Range},
      (keys.findSome? fun key => (d.jsonNumber? key).filter r.admits) = some v →
        r.admits v ∧ ∃ key, d.jsonNumber? key = some v := by
    intro keys r h
    obtain ⟨key, -, hkey⟩ := List.exists_of_findSome?_eq_some h
    obtain ⟨hv, hadmits⟩ := Option.filter_eq_some_iff.mp hkey
    exact ⟨hadmits, key, hv⟩
  cases q with
  | weight =>
    rw [source?] at h
    split at h
    · obtain ⟨hv, hadmits⟩ := Option.filter_eq_some_iff.mp h
      obtain ⟨key, -, hkey⟩ := List.exists_of_findSome?_eq_some hv
      exact ⟨hadmits, key, hkey⟩
    · nomatch h
  | borderWidth | borderRadius | margin | padding | fontSize | length => exact hentry h

theorem Quantity.default_isUsable (hconfig : config.IsUsable) {q : Quantity} {x : Float32}
    (h : q.default config = some x) : x.isFinite ∧ q.range.test x := by
  cases q with
  | fontSize =>
    cases h
    obtain ⟨hfinite, hpos⟩ := hconfig config.fontSize List.mem_cons_self
    exact ⟨hfinite, decide_eq_true hpos⟩
  | length => nomatch h
  | margin =>
    cases h
    exact ⟨rfl, rfl⟩
  | borderWidth | borderRadius | padding | weight =>
    have hzero : (0 : Float32) ≤ 0 := by decide
    cases h
    exact ⟨rfl, decide_eq_true hzero⟩

theorem quantity_resolve_isUsable_iff (hd : d.IsValid) (hconfig : config.IsUsable)
    (q : Quantity) :
    (∀ x, (resolve config parent d).quantity q = some x → x.isFinite ∧ q.range.test x) ↔
      ∀ v, q.source? parent d = some v → |v.value| < 2 ^ 128 - 2 ^ 103 := by
  rw [quantity_resolve config parent hd]
  cases hv : q.source? parent d with
  | none =>
    rw [Option.map_none, Option.none_or]
    exact iff_of_true (fun x hx => Quantity.default_isUsable config hconfig hx)
      fun v hv => nomatch hv
  | some v =>
    obtain ⟨hadmits, key, hkey⟩ := Quantity.source?_admits parent hv
    have hvalid := Declarations.isValid_of_jsonNumber? hd hkey
    have hfinite := Json.Number.isFinite_narrowed_iff hvalid
    rw [Option.map_some, Option.some_or]
    constructor
    · intro h w hw
      cases hw
      exact hfinite.mp (h _ rfl).1
    · intro h x hx
      cases hx
      rw [q.range.test_narrowed hvalid]
      exact ⟨hfinite.mpr (h v rfl), hadmits⟩

theorem aspectRatio_resolve_eq_some_iff {r : Float32} :
    (resolve config parent d).aspectRatio = some r ↔ ∃ text w h,
      d.string? "aspectRatio" = some text ∧ AspectSides text w h ∧ r = w / h := by
  show (d.string? "aspectRatio").bind aspectRatio? = some r ↔ _
  simp only [Option.bind_eq_some_iff, aspectRatio?_eq_some_iff, exists_and_left]

/-- Every number of a style comes from its source or is the default, and all of them are usable
exactly if no source is too large for 32 bits and the quotient of the aspect ratio is neither too
large nor too small for them. -/
theorem resolve_isUsable_iff (hd : d.IsValid) (hconfig : config.IsUsable) :
    let style := resolve config parent d
    (∀ q, style.quantity q =
      ((q.source? parent d).map Json.Number.narrowed).or (q.default config)) ∧
    (style.IsUsable ↔
      (∀ q v, Quantity.source? parent d q = some v → |v.value| < 2 ^ 128 - 2 ^ 103) ∧
      ∀ text w h, d.string? "aspectRatio" = some text → AspectSides text w h →
        1 / 2 ^ 150 < Number.value w / Number.value h ∧
          Number.value w / Number.value h < 2 ^ 128 - 2 ^ 103) := by
  intro style
  have hquantity := quantity_resolve_isUsable_iff config parent hd hconfig
  refine ⟨quantity_resolve config parent hd, ?_, ?_⟩
  · intro husable
    refine ⟨fun q => (hquantity q).mp (husable.quantity q), fun text w h htext hsides => ?_⟩
    obtain ⟨hfinite, hpos⟩ := husable.aspectRatio _
      ((aspectRatio_resolve_eq_some_iff config parent).mpr ⟨text, w, h, htext, hsides, rfl⟩)
    exact ⟨hsides.rounds.pos_iff.mp hpos,
      (le_abs_self _).trans_lt (hsides.rounds.isFinite_iff.mp hfinite)⟩
  · rintro ⟨hsources, hratio⟩
    refine ⟨fun q => (hquantity q).mpr (hsources q), fun axis p hp => ?_, fun r hr => ?_⟩
    · rw [length_resolve] at hp
      exact Length.isFinite_of_ofDeclarations_eq_percent hp
    · obtain ⟨text, w, h, htext, hsides, rfl⟩ :=
        (aspectRatio_resolve_eq_some_iff config parent).mp hr
      obtain ⟨hlow, hhigh⟩ := hratio text w h htext hsides
      have hpos : 0 < Number.value w / Number.value h := lt_trans (by norm_num) hlow
      rw [hsides.rounds.isFinite_iff, hsides.rounds.pos_iff, abs_of_pos hpos]
      exact ⟨hhigh, hlow⟩

end

/-- With a padding of 4 and nothing else every number of the style is usable. -/
theorem isUsable_resolve_padding :
    let d : Declarations := ⟨[("padding", .number (.natural 4))]⟩
    d.IsValid ∧ Config.IsUsable {} ∧ (resolve {} .column d).IsUsable := by
  intro d
  have hd : d.IsValid := Declarations.isValid_single "padding" trivial
  refine ⟨hd, Config.isUsable_default,
    (resolve_isUsable_iff {} .column hd Config.isUsable_default).2.mpr ⟨fun q v hv => ?_, ?_⟩⟩
  · obtain ⟨-, key, hkey⟩ := Quantity.source?_admits .column hv
    have hentry := Declarations.eq_of_get?_single (Declarations.get?_of_jsonNumber? hkey)
    have hfour : (Json.Number.natural 4).value = 4 := rfl
    rw [Value.number.inj hentry, hfour]
    norm_num
  · intro text w h htext
    nomatch htext

/-- A border width of `1e39` is a finite JSON number, but the border of the style is infinite. -/
theorem not_forall_isUsable_resolve :
    ¬∀ (config : Config) (parent : Direction) (d : Declarations), d.IsValid → config.IsUsable →
      (resolve config parent d).IsUsable := by
  intro h
  have hv : (Json.Number.real 1e39).IsValid := by decide +kernel
  have hd := Declarations.isValid_single "borderWidth" hv
  have hfinite := ((h {} .column _ hd Config.isUsable_default).quantity .borderWidth _ rfl).1
  have hinfinite : (resolve {} .column ⟨[("borderWidth", .number (.real 1e39))]⟩
    ).border.width.isFinite = false := by decide +kernel
  exact Bool.false_ne_true (hinfinite.symm.trans hfinite)

end Style

end ContentCard
