import ContentCard.Proofs.Node.MapStyles

/-!
# Entries without meaning

A style entry counts if its key is one of the documented keys and its value is of a kind that the
key accepts.  Without all other entries a payload renders to the same visual.
-/

namespace ContentCard

open Json

/-! ## 1. The documented keys -/

namespace Declarations

/-- Keys of points, weights and text sizes. -/
def numberKeys : List String :=
  ["padding", "paddingHorizontal", "paddingVertical", "paddingTop", "paddingRight",
    "paddingBottom", "paddingLeft", "margin", "marginHorizontal", "marginVertical", "marginTop",
    "marginRight", "marginBottom", "marginLeft", "borderWidth", "borderRadius", "weight", "flex",
    "fontSize"]

/-- Keys of lengths: points, or a percentage. -/
def lengthKeys : List String := ["width", "height"]

def flagKeys : List String := ["fillWidth", "fillHeight"]

/-- Keys of keywords, colours and ratios. -/
def textKeys : List String :=
  ["flexDirection", "justifyContent", "alignItems", "backgroundColor", "borderColor",
    "aspectRatio", "fontWeight", "textColor", "color", "contentScale"]

/-- The kinds of value that a key accepts; an undocumented key accepts none. -/
def acceptedKinds (key : String) : List Kind :=
  if key ∈ numberKeys then [.number]
  else if key ∈ lengthKeys then [.number, .string]
  else if key ∈ flagKeys then [.bool]
  else if key ∈ textKeys then [.string]
  else []

def accepts (key : String) (v : Value) : Bool := v.kind ∈ acceptedKinds key

end Declarations

/-- The entries of documented keys with values of a kind that the key accepts. -/
def Json.Members.accepted (entries : Members) : Members := entries.keep Declarations.accepts

/-! ## 2. Reading the accepted entries -/

namespace Declarations

def accepted (d : Declarations) : Declarations := ⟨d.entries.accepted⟩

variable (d : Declarations) {key : String}

/-- A reader of values of one kind misses nothing under a key that accepts this kind. -/
theorem bind_get?_accepted {α : Type} {read : Value → Option α} {kind : Kind}
    (hread : ∀ v, v.kind ≠ kind → read v = none) (hkey : kind ∈ acceptedKinds key) :
    (d.accepted.get? key).bind read = (d.get? key).bind read := by
  show (Members.get? (d.entries.keep accepts) key).bind read = (d.entries.get? key).bind read
  rw [Members.get?_keep]
  cases d.entries.get? key with
  | none => rfl
  | some v =>
    rw [Option.filter_some, Option.bind_some]
    by_cases hv : v.kind = kind
    · have ha : accepts key v = true := decide_eq_true (hv ▸ hkey)
      rw [if_pos ha, Option.bind_some]
    -- what is dropped here is not read in the first place
    · rw [hread v hv]
      split
      · exact hread v hv
      · rfl

theorem string?_accepted (hkey : .string ∈ acceptedKinds key) :
    d.accepted.string? key = d.string? key := by
  refine d.bind_get?_accepted (fun v hv => ?_) hkey
  cases v with
  | string s => exact absurd rfl hv
  | null | bool | number | array | object => rfl

theorem bool?_accepted (hkey : .bool ∈ acceptedKinds key) :
    d.accepted.bool? key = d.bool? key := by
  refine d.bind_get?_accepted (fun v hv => ?_) hkey
  cases v with
  | bool b => exact absurd rfl hv
  | null | number | string | array | object => rfl

theorem float?_accepted (hkey : .number ∈ acceptedKinds key) :
    d.accepted.float? key = d.float? key := by
  rw [float?_eq_bind, float?_eq_bind]
  refine d.bind_get?_accepted (fun v hv => ?_) hkey
  cases v with
  | number n => exact absurd rfl hv
  | null | bool | string | array | object => rfl

end Declarations

/-- Every entry that has a meaning is accepted: each key is read as a kind of value that it
accepts. -/
theorem resolve_accepted (config : Config) (parent : Direction) (d : Declarations) :
    Style.resolve config parent d.accepted = Style.resolve config parent d := by
  simp (disch := decide) only [Style.resolve, Declarations.edges, Declarations.nonNegative?,
    Declarations.weight, Length.ofDeclarations, Declarations.firstFloat?, Declarations.paddingKeys,
    List.findSome?, List.any_cons, List.any_nil, d.float?_accepted, d.string?_accepted,
    d.bool?_accepted]

/-! ## 3. Payloads -/

/-- A payload and the same one without the entries that no style accepts are both read, and render
to the same visual in any parent. -/
theorem Template.ofNode_ofValue_accepted (payload : Members) :
    ∃ t t', Template.ofValue (.object payload) = .ok t ∧
      Template.ofValue ((Value.object payload).mapStyles Members.accepted) = .ok t' ∧
      ∀ s parent, Visual.ofNode s parent t'.root = Visual.ofNode s parent t.root := by
  refine ⟨⟨.ofMembers payload⟩, _, rfl, Template.ofValue_mapStyles rfl payload, ?_⟩
  intro s parent
  exact Visual.ofNode_mapStyles s
    (fun parent entries => resolve_accepted s.config parent ⟨entries⟩) parent _

/-- A text is no padding and a number no colour; a length may be either. -/
example :
    (Value.object [("style", .object [("colour", .string "red"), ("padding", .string "4"),
      ("paddingTop", .number (.natural 4)), ("textColor", .number (.natural 0)),
      ("weight", .null), ("width", .string "50%")]), ("type", .string "button")]).mapStyles
      Members.accepted =
    .object [("style", .object [("paddingTop", .number (.natural 4)), ("width", .string "50%")]),
      ("type", .string "button")] := by
  rfl

end ContentCard
