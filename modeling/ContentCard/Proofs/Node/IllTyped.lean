import ContentCard.Proofs.Node.Children

/-!
# Members of the wrong type

A member with a value of a type that its key does not accept counts as absent.  The one exception
is `children`: whatever stands there hides an older `child`.
-/

namespace ContentCard

open Json

/-! ## 1. What a node reads -/

namespace Node

/-- The keys that a node is read from. -/
def keys : List String :=
  ["type", "style", "tyle", "children", "child", "content", "url", "label", "actionUrl",
    "interactionId"]

/-- The kinds of value that a node reads under a key. -/
def acceptedKinds (key : String) : List Kind :=
  if key ∈ ["style", "tyle"] then [.object]
  else if key ∈ ["children", "child"] then [.array, .object]
  else if key ∈ keys then [.string]
  else []

/-- Children are looked for under `child` once there is no `children`. -/
def HidesChild (members : Members) (key : String) : Prop :=
  key = "children" ∧ NodeData.typeOf members = .view ∧
    ∃ v, members.get? "child" = some v ∧ v.objects ≠ []

end Node

/-! ## 2. Reading past such a member -/

section

variable (members : Members) {key : String} {v : Value}
  (hv : v.kind ∉ Node.acceptedKinds key)

include hv

/-- A reader of values of one kind sees no difference under a key that accepts this kind. -/
theorem Json.Members.bind_get?_insert_eq_erase {α : Type} {read : Value → Option α} {kind : Kind}
    (hread : ∀ v, v.kind ≠ kind → read v = none) {k : String}
    (hk : kind ∈ Node.acceptedKinds k) :
    ((members.insert key v).get? k).bind read = ((members.erase key).get? k).bind read := by
  rw [Members.get?_insert, Members.get?_erase]
  by_cases h : k = key
  · have hne : v.kind ≠ kind := fun he => hv (he ▸ h ▸ hk)
    rw [if_pos h, if_pos h]
    exact hread v hne
  · rw [if_neg h, if_neg h]

theorem Json.Members.string?_insert_eq_erase {k : String} (hk : .string ∈ Node.acceptedKinds k) :
    (members.insert key v).string? k = (members.erase key).string? k := by
  refine members.bind_get?_insert_eq_erase hv (fun v hv => ?_) hk
  cases v with
  | string s => exact absurd rfl hv
  | null | bool | number | array | object => rfl

theorem NodeData.ofMembers_insert_eq_erase :
    ofMembers (members.insert key v) = ofMembers (members.erase key) := by
  have hobject {k : String} (hk : .object ∈ Node.acceptedKinds k) :
      ((members.insert key v).get? k).bind Value.object? =
        ((members.erase key).get? k).bind Value.object? := by
    refine members.bind_get?_insert_eq_erase hv (fun v hv => ?_) hk
    cases v with
    | object m => exact absurd rfl hv
    | null | bool | number | string | array => rfl
  have hstring {k : String} (hk : .string ∈ Node.acceptedKinds k) :=
    members.string?_insert_eq_erase hv hk
  simp only [ofMembers, typeOf, styleOf_eq, hobject (k := "style") (by decide),
    hobject (k := "tyle") (by decide), hstring (k := "type") (by decide),
    hstring (k := "content") (by decide), hstring (k := "url") (by decide),
    hstring (k := "label") (by decide), hstring (k := "actionUrl") (by decide),
    hstring (k := "interactionId") (by decide)]

theorem Json.Members.typeOf_insert_eq_erase :
    NodeData.typeOf (members.insert key v) = NodeData.typeOf (members.erase key) :=
  congrArg NodeData.type (NodeData.ofMembers_insert_eq_erase members hv)

end

/-! ## 3. Children past such a member -/

/-- Under the keys of children a value that is not accepted holds no objects. -/
theorem Json.Value.objects_of_not_accepted {v : Value} (hv : v.kind ∉ [Kind.array, .object]) :
    v.objects = [] := by
  cases v with
  | array items => exact absurd List.mem_cons_self hv
  | object m => exact absurd (List.mem_cons_of_mem _ List.mem_cons_self) hv
  | null | bool | number | string => rfl

namespace Json.Members

variable (members : Members) {key : String} {v : Value}

theorem childObjects_insert_child_eq_erase (hv : v.kind ∉ Node.acceptedKinds "child") :
    (members.insert "child" v).childObjects = (members.erase "child").childObjects := by
  have hchildren : "children" ≠ "child" := by decide
  have hobjects : v.objects = [] := Value.objects_of_not_accepted hv
  rw [childObjects, childObjects, members.typeOf_insert_eq_erase hv,
    get?_insert_of_ne _ hchildren, get?_erase_of_ne _ hchildren, get?_insert_self, get?_erase_self]
  -- `child` counts only where there is no `children`, and then both sides are empty
  cases members.get? "children" with
  | none =>
    rw [Option.none_or, Option.none_or, Option.map_some, hobjects]
    rfl
  | some w => rfl

theorem childObjects_insert_eq_erase_of_ne (hv : v.kind ∉ Node.acceptedKinds key)
    (hchildren : "children" ≠ key) (hchild : "child" ≠ key) :
    (members.insert key v).childObjects = (members.erase key).childObjects := by
  rw [childObjects, childObjects, members.typeOf_insert_eq_erase hv,
    get?_insert_of_ne _ hchildren, get?_erase_of_ne _ hchildren, get?_insert_of_ne _ hchild,
    get?_erase_of_ne _ hchild]

theorem typeOf_erase_children :
    NodeData.typeOf (members.erase "children") = NodeData.typeOf members :=
  ((members.agreeOff_erase "children").mono (by decide)).typeOf_eq

/-- Without `children` the objects are those under `child`. -/
theorem childObjects_erase_children :
    (members.erase "children").childObjects =
      if NodeData.typeOf members = .view then
        ((members.get? "child").map Value.objects).getD []
      else [] := by
  have hchild : "child" ≠ "children" := by decide
  rw [childObjects, typeOf_erase_children, get?_erase_self, get?_erase_of_ne _ hchild,
    Option.none_or]

theorem childObjects_insert_children_of_not_accepted
    (hv : v.kind ∉ Node.acceptedKinds "children") :
    (members.insert "children" v).childObjects = [] := by
  have hobjects : v.objects = [] := Value.objects_of_not_accepted hv
  rw [childObjects, get?_insert_self]
  split
  · exact hobjects
  · rfl

theorem childObjects_erase_children_eq_nil_iff :
    (members.erase "children").childObjects = [] ↔ ¬Node.HidesChild members "children" := by
  rw [childObjects_erase_children, Node.HidesChild]
  by_cases hview : NodeData.typeOf members = .view
  · rw [if_pos hview]
    cases members.get? "child" with
    | none => simp
    | some w => simp [hview]
  · simp [hview]

end Json.Members

namespace Node

/-- Putting a value of a type that the key does not accept is the same as dropping the key, unless
it takes the place of `children` in a view that has objects under `child`. -/
theorem ofMembers_insert_eq_erase_iff (members : Members) {key : String} {v : Value}
    (hv : v.kind ∉ acceptedKinds key) :
    ofMembers (members.insert key v) = ofMembers (members.erase key) ↔
      ¬HidesChild members key := by
  have hdata := NodeData.ofMembers_insert_eq_erase members hv
  by_cases hchildren : key = "children"
  · subst hchildren
    have hnone := members.childObjects_insert_children_of_not_accepted hv
    rw [← members.childObjects_erase_children_eq_nil_iff]
    constructor
    · intro h
      have hnodes := congrArg children h
      rw [children_ofMembers, children_ofMembers, hnone] at hnodes
      exact List.map_eq_nil_iff.mp hnodes.symm
    · intro h
      exact ofMembers_congr hdata (hnone.trans h.symm)
  · refine iff_of_true (ofMembers_congr hdata ?_) fun h => hchildren h.1
    by_cases hchild : key = "child"
    · subst hchild
      exact members.childObjects_insert_child_eq_erase hv
    · exact members.childObjects_insert_eq_erase_of_ne hv (Ne.symm hchildren) (Ne.symm hchild)

/-- A style that is a text leaves the older `tyle` in use. -/
theorem ofMembers_insert_eq_erase_tyle :
    let view : Members := [("tyle", .object [("padding", .number (.natural 4))]),
      ("type", .string "view")]
    (Value.string "bold").kind ∉ acceptedKinds "style" ∧ ¬HidesChild view "style" ∧
      ofMembers (view.insert "style" (.string "bold")) = ofMembers (view.erase "style") := by
  intro view
  have hkind : (Value.string "bold").kind ∉ acceptedKinds "style" := by decide
  have hhides : ¬HidesChild view "style" := fun h => absurd h.1 (by decide)
  exact ⟨hkind, hhides, (ofMembers_insert_eq_erase_iff view hkind).mpr hhides⟩

/-- A `children` that is null takes the text under `child` away. -/
theorem not_forall_ofMembers_insert_eq_erase :
    ¬∀ (members : Members) (key : String) (v : Value), key ∈ keys → v.kind ∉ acceptedKinds key →
      ofMembers (members.insert key v) = ofMembers (members.erase key) := by
  intro h
  have hnull := h [("child", .object [("content", .string "hi"), ("type", .string "text")]),
    ("type", .string "view")] "children" .null (by decide) (by decide)
  exact absurd (congrArg (fun n => n.children.length) hnull) (by decide)

end Node

end ContentCard
