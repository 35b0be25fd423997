import ContentCard.Card
import ContentCard.Proofs.Style.Entries

/-!
# Older keys mean what the newer ones mean

A payload may use the older keys `tyle`, `child`, `flex` and `color`.  With each of them renamed
wherever the newer key is absent (`Value.modern`) it renders to the same visual.
-/

namespace ContentCard

open Json

/-! ## 1. Payloads without older keys -/

namespace Json

def Value.mapMembers (f : Members → Members) : Value → Value
  | .object members => .object (f members)
  | v => v

namespace Members

def modernStyle (entries : Members) : Members :=
  (entries.rename "flex" "weight").rename "color" "textColor"

/-- The key whose object is the style of a node. -/
def styleKey (members : Members) : String :=
  if ((members.get? "style").bind Value.object?).isSome then "style" else "tyle"

/-- The key whose value holds the children of a view. -/
def childrenKey (members : Members) : String :=
  if (members.get? "children").isSome then "children" else "child"

/-- The members of one node and of its style under the newer keys; its children stay. -/
def modernKeys (members : Members) : Members :=
  ((members.modify members.styleKey (Value.mapMembers modernStyle)).rename "tyle" "style").rename
    "child" "children"

end Members

mutual

/-- The same value with the newer keys in all nodes that are read from it. -/
def Value.modern : Value → Value
  | .object members =>
    .object (Members.modernKeys
      (if NodeData.typeOf members = .view then modernAt (Members.childrenKey members) members
      else members))
  | .array items => .array (modernAll items)
  | v => v

def modernAll : List Value → List Value
  | [] => []
  | v :: rest => v.modern :: modernAll rest

/-- The members with the newer keys in all nodes under one of them. -/
def modernAt (key : String) : List (String × Value) → Members
  | [] => []
  | (k, v) :: rest => (k, if k = key then v.modern else v) :: modernAt key rest

end

theorem modernAt_eq_modify (key : String) (members : Members) :
    modernAt key members = members.modify key Value.modern := by
  induction members with
  | nil => rfl
  | cons m rest ih => rw [modernAt, ih]; rfl

end Json

def Declarations.modern (d : Declarations) : Declarations := ⟨d.entries.modernStyle⟩

def NodeData.modern (data : NodeData) : NodeData := { data with style := data.style.modern }

namespace Node

mutual

/-- The same node with the newer keys in all styles. -/
def modern : Node → Node
  | mk data children => mk data.modern (modernAll children)

def modernAll : List Node → List Node
  | [] => []
  | n :: rest => n.modern :: modernAll rest

end

theorem modernAll_append (ns ms : List Node) :
    modernAll (ns ++ ms) = modernAll ns ++ modernAll ms := by
  induction ns with
  | nil => rfl
  | cons n rest ih => rw [List.cons_append, modernAll, modernAll, ih, List.cons_append]

end Node

/-! ## 2. Styles -/

namespace Declarations

def styleAliases : List String := ["color", "textColor", "flex", "weight"]

theorem modern_agreeOff (d : Declarations) : AgreeOff styleAliases d.modern d :=
  (Members.agreeOff_rename _ "color" "textColor").trans (Members.agreeOff_rename _ "flex" "weight")

theorem modern_weight_or_flex {α : Type} (d : Declarations) (read : Value → Option α) :
    ((d.modern.get? "weight").bind read).or ((d.modern.get? "flex").bind read) =
      ((d.get? "weight").bind read).or ((d.get? "flex").bind read) := by
  have h := Members.agreeOff_rename (d.entries.rename "flex" "weight") "color" "textColor"
  rw [modern, get?, get?, Members.modernStyle, h "weight" (by decide), h "flex" (by decide)]
  exact Members.bind_or_bind_rename _ _ _ (by decide) read

theorem modern_textColor_or_color {α : Type} (d : Declarations) (read : Value → Option α) :
    ((d.modern.get? "textColor").bind read).or ((d.modern.get? "color").bind read) =
      ((d.get? "textColor").bind read).or ((d.get? "color").bind read) := by
  have h := Members.agreeOff_rename d.entries "flex" "weight"
  have ht : (d.entries.rename "flex" "weight").get? "textColor" = d.get? "textColor" :=
    h "textColor" (by decide)
  have hc : (d.entries.rename "flex" "weight").get? "color" = d.get? "color" :=
    h "color" (by decide)
  rw [← ht, ← hc]
  exact Members.bind_or_bind_rename _ _ _ (by decide) read

/-- What a value says as a number. -/
theorem float?_eq_bind (d : Declarations) (key : String) :
    d.float? key = (d.get? key).bind fun v =>
      ((v.number?.map Json.Number.toFloat).filter Float.isFinite).map Number.narrow := by
  rw [float?, number?]
  cases d.get? key <;> rfl

theorem weight_modern (d : Declarations) : d.modern.weight = d.weight := by
  have h := d.modern_weight_or_flex fun v =>
    ((v.number?.map Json.Number.toFloat).filter Float.isFinite).map Number.narrow
  rw [← float?_eq_bind, ← float?_eq_bind, ← float?_eq_bind, ← float?_eq_bind] at h
  rw [weight, h, weight]

end Declarations

theorem resolve_modern (config : Config) (parent : Direction) (d : Declarations) :
    Style.resolve config parent d.modern = Style.resolve config parent d := by
  have h := d.modern_agreeOff
  have hc : (d.modern.string? "textColor").or (d.modern.string? "color") =
      (d.string? "textColor").or (d.string? "color") :=
    d.modern_textColor_or_color Value.string?
  simp (disch := decide) only [Style.resolve, Declarations.edges, Declarations.nonNegative?,
    Length.ofDeclarations, Declarations.firstFloat?, Declarations.paddingKeys, List.findSome?,
    List.any_cons, List.any_nil, h.float?, h.string?, h.bool?, hc, d.weight_modern]

/-! ## 3. Nodes -/

namespace NodeData

theorem styleOf_eq (members : Members) :
    styleOf members = ((((members.get? "style").bind Value.object?).or
      ((members.get? "tyle").bind Value.object?)).map Declarations.mk).getD .empty := by
  rw [styleOf]
  cases (members.get? "style").bind Value.object? with
  | some entries => rfl
  | none => cases (members.get? "tyle").bind Value.object? <;> rfl

end NodeData

namespace Node

theorem listOfMember_eq (key : String) (members : Members) :
    listOfMember key members = (members.get? key).map listOfValue := by
  induction members with
  | nil => rfl
  | cons m rest ih =>
    obtain ⟨k, v⟩ := m
    rw [listOfMember, Members.get?_cons, ih]
    by_cases h : key = k
    · rw [if_pos h, if_pos h, Option.map_some]
    · rw [if_neg h, if_neg h]

theorem childrenOf_eq_or (members : Members) :
    childrenOf members =
      ((listOfMember "children" members).or (listOfMember "child" members)).getD [] := by
  rw [childrenOf]
  cases listOfMember "children" members <;> rfl

theorem childrenOf_eq (members : Members) :
    childrenOf members = (listOfMember members.childrenKey members).getD [] := by
  rw [childrenOf_eq_or, Members.childrenKey, listOfMember_eq, listOfMember_eq, listOfMember_eq]
  cases h : members.get? "children" with
  | some v => rw [Option.isSome_some, if_pos rfl, h]; rfl
  | none => rfl

end Node

namespace Json.Members

variable (members : Members)

/-- Only the style that is in use is changed. -/
theorem bind_or_bind_modify_styleKey (f : Members → Members) :
    (((members.modify members.styleKey (Value.mapMembers f)).get? "style").bind
        Value.object?).or
      (((members.modify members.styleKey (Value.mapMembers f)).get? "tyle").bind
        Value.object?) =
      (((members.get? "style").bind Value.object?).or
        ((members.get? "tyle").bind Value.object?)).map f := by
  have hm (o : Option Value) :
      (o.map (Value.mapMembers f)).bind Value.object? = (o.bind Value.object?).map f := by
    rcases o with _ | (_ | _ | _ | _ | _ | _) <;> rfl
  rw [get?_modify, get?_modify, styleKey]
  cases h : (members.get? "style").bind Value.object? with
  | some entries =>
    rw [Option.isSome_some, if_pos rfl, if_pos rfl, hm, h]
    rfl
  | none =>
    -- a `style` that is no object stays as it is, and `tyle` is in use
    rw [Option.isSome_none, if_neg Bool.false_ne_true, if_neg (by decide), if_pos rfl, hm, h]
    rfl

theorem styleKey_mem : members.styleKey ∈ ["tyle", "style"] := by
  rw [styleKey]
  split <;> decide

def nodeAliases : List String := ["child", "children", "tyle", "style"]

/-- Renaming the entries of a style, and then its key, is seen under its two keys only. -/
theorem agreeOff_modernStyle :
    AgreeOff ["tyle", "style"]
      ((members.modify members.styleKey (Value.mapMembers modernStyle)).rename "tyle" "style")
      members := by
  refine ((agreeOff_rename _ _ _).trans (agreeOff_modify _ _ _)).mono ?_
  exact List.append_subset.mpr
    ⟨List.Subset.refl _, List.cons_subset.mpr ⟨members.styleKey_mem, List.nil_subset _⟩⟩

theorem modernKeys_agreeOff : AgreeOff nodeAliases members.modernKeys members :=
  (agreeOff_rename _ "child" "children").trans members.agreeOff_modernStyle

theorem childrenKey_mem : members.childrenKey ∈ ["child", "children"] := by
  rw [childrenKey]
  split <;> decide

theorem modernAt_agreeOff :
    AgreeOff ["child", "children"] (modernAt members.childrenKey members) members := by
  rw [modernAt_eq_modify]
  refine (agreeOff_modify _ _ _).mono ?_
  exact List.cons_subset.mpr ⟨members.childrenKey_mem, List.nil_subset _⟩

theorem childrenKey_modernAt :
    childrenKey (modernAt members.childrenKey members) = members.childrenKey := by
  have h : ((modernAt members.childrenKey members).get? "children").isSome =
      (members.get? "children").isSome := by
    rw [modernAt_eq_modify, get?_modify]
    split
    · exact Option.isSome_map
    · rfl
  rw [childrenKey, h, childrenKey]

end Json.Members

namespace NodeData

theorem styleOf_modernKeys (members : Members) :
    styleOf members.modernKeys = (styleOf members).modern := by
  have h := Members.agreeOff_rename
    ((members.modify members.styleKey (Value.mapMembers Members.modernStyle)).rename "tyle" "style")
    "child" "children"
  rw [styleOf_eq, Members.modernKeys, h "style" (by decide), h "tyle" (by decide),
    Members.bind_or_bind_rename _ _ _ (by decide), Members.bind_or_bind_modify_styleKey, styleOf_eq]
  cases ((members.get? "style").bind Value.object?).or
    ((members.get? "tyle").bind Value.object?) <;> rfl

theorem ofMembers_modernKeys (members : Members) :
    ofMembers members.modernKeys = (ofMembers members).modern := by
  have h := members.modernKeys_agreeOff
  simp (disch := decide) only [ofMembers, modern, typeOf, styleOf_modernKeys, h.string?]

/-- What a node says about itself is not under the keys of its children. -/
theorem ofMembers_congr {m m' : Members} (h : Members.AgreeOff ["child", "children"] m m') :
    ofMembers m = ofMembers m' := by
  simp (disch := decide) only [ofMembers, typeOf, styleOf_eq, h.string?, h "style", h "tyle"]

end NodeData

namespace Node

theorem childrenOf_modernKeys (members : Members) :
    childrenOf members.modernKeys = childrenOf members := by
  have h := members.agreeOff_modernStyle
  rw [childrenOf_eq_or, childrenOf_eq_or]
  simp only [listOfMember_eq, Option.map_eq_bind]
  rw [Members.modernKeys, Members.bind_or_bind_rename _ _ _ (by decide), h "children" (by decide),
    h "child" (by decide)]

/-- The children of a view, read from the value that holds them. -/
theorem childrenOf_modernAt {members : Members}
    (h : listOfMember members.childrenKey (Json.modernAt members.childrenKey members) =
      (listOfMember members.childrenKey members).map modernAll) :
    childrenOf (Json.modernAt members.childrenKey members) = modernAll (childrenOf members) := by
  rw [childrenOf_eq, Members.childrenKey_modernAt, h, childrenOf_eq]
  cases listOfMember members.childrenKey members <;> rfl

theorem ofMembers_of_view {members : Members} (h : NodeData.typeOf members = .view) :
    ofMembers members = mk (.ofMembers members) (childrenOf members) :=
  congrArg (mk _) (if_pos h)

theorem ofMembers_of_ne_view {members : Members} (h : NodeData.typeOf members ≠ .view) :
    ofMembers members = mk (.ofMembers members) [] :=
  congrArg (mk _) (if_neg h)

theorem ofMembers_modern {members : Members}
    (h : listOfMember members.childrenKey (Json.modernAt members.childrenKey members) =
      (listOfMember members.childrenKey members).map modernAll) :
    ofMembers (Members.modernKeys
      (if NodeData.typeOf members = .view then Json.modernAt members.childrenKey members
      else members)) = (ofMembers members).modern := by
  by_cases ht : NodeData.typeOf members = .view
  -- a view is renamed from its children up
  · have hd : NodeData.ofMembers (Json.modernAt members.childrenKey members).modernKeys =
        (NodeData.ofMembers members).modern := by
      rw [NodeData.ofMembers_modernKeys, NodeData.ofMembers_congr members.modernAt_agreeOff]
    have ht' := (congrArg NodeData.type hd).trans ht
    rw [if_pos ht, ofMembers_of_view ht', ofMembers_of_view ht, hd, childrenOf_modernKeys,
      childrenOf_modernAt h, modern]
  -- nothing is read under any other node, and nothing is renamed there
  · have hd := NodeData.ofMembers_modernKeys members
    have ht' : NodeData.typeOf members.modernKeys ≠ .view := fun he =>
      ht ((congrArg NodeData.type hd).symm.trans he)
    rw [if_neg ht, ofMembers_of_ne_view ht', ofMembers_of_ne_view ht, hd]
    rfl

mutual

theorem listOfValue_modern (v : Value) : listOfValue v.modern = modernAll (listOfValue v) := by
  cases v with
  | object members =>
    rw [Value.modern, listOfValue_object, listOfValue_object,
      ofMembers_modern (listOfMember_modernAt _ members)]
    rfl
  | array items =>
    rw [Value.modern, listOfValue, listOfValue]
    exact listOfValues_modernAll items
  | null | bool | number | string => rfl

theorem listOfValues_modernAll (vs : List Value) :
    listOfValues (Json.modernAll vs) = modernAll (listOfValues vs) := by
  cases vs with
  | nil => rfl
  | cons v rest =>
    rw [Json.modernAll, listOfValues, listOfValues, modernAll_append, listOfValue_modern v,
      listOfValues_modernAll rest]

theorem listOfMember_modernAt (key : String) (members : List (String × Value)) :
    listOfMember key (Json.modernAt key members) = (listOfMember key members).map modernAll := by
  match members with
  | [] => rfl
  | (k, v) :: rest =>
    rw [Json.modernAt, listOfMember, listOfMember]
    by_cases h : key = k
    · rw [if_pos h, if_pos h, if_pos h.symm, listOfValue_modern v, Option.map_some]
    · rw [if_neg h, if_neg h, listOfMember_modernAt key rest]

end

end Node

/-! ## 4. Visuals -/

namespace Visual

variable (s : Surroundings)

mutual

theorem ofNode_modern (parent : Direction) (n : Node) :
    ofNode s parent n.modern = ofNode s parent n := by
  cases n with
  | mk data children =>
    have hs : Style.resolve s.config parent data.modern.style =
        Style.resolve s.config parent data.style :=
      resolve_modern s.config parent data.style
    -- the direction that the children get is read from the style, so they are equal in any
    have hc := fun parent => ofNodes_modernAll parent children
    rw [Node.modern, ofNode, ofNode]
    simp only [hs, hc]
    rfl

theorem ofNodes_modernAll (parent : Direction) (ns : List Node) :
    ofNodes s parent (Node.modernAll ns) = ofNodes s parent ns := by
  cases ns with
  | nil => rfl
  | cons n rest =>
    rw [Node.modernAll, ofNodes, ofNodes, ofNode_modern parent n, ofNodes_modernAll parent rest]

end

end Visual

/-- A payload and the same one with the newer keys are both read.  They render to the same visual in
any parent, with the same layout in any room. -/
theorem Template.ofNode_ofValue_modern (payload : Members) :
    ∃ t t', Template.ofValue (.object payload) = .ok t ∧
      Template.ofValue (Value.object payload).modern = .ok t' ∧
      ∀ s parent, Visual.ofNode s parent t'.root = Visual.ofNode s parent t.root ∧
        ∀ room ruler, (Visual.ofNode s parent t'.root).placement room ruler =
          (Visual.ofNode s parent t.root).placement room ruler := by
  refine ⟨⟨.ofMembers payload⟩, ⟨(Node.ofMembers payload).modern⟩, rfl, ?_, fun s parent => ?_⟩
  · have h := Node.ofMembers_modern (Node.listOfMember_modernAt _ payload)
    rw [Value.modern, Template.ofValue, h]
  · have hv := Visual.ofNode_modern s parent (Node.ofMembers payload)
    refine ⟨hv, fun room ruler => ?_⟩
    show (Visual.ofNode s parent (Node.ofMembers payload).modern).placement room ruler = _
    rw [hv]

/-- A text in arrays under `child`; a `style` that is no object leaves `tyle` in use. -/
example :
    let text : Members := [("tyle", .object [("color", .string "red"), ("flex", .bool true)]),
      ("type", .string "text")]
    let text' : Members := [("style", .object [("textColor", .string "red"),
      ("weight", .bool true)]), ("type", .string "text")]
    (Value.object [("child", .array [.array [.object text]]), ("style", .null),
      ("type", .string "view"), ("tyle", .object [("flex", .null)])]).modern =
    .object [("children", .array [.array [.object text']]), ("style", .null),
      ("type", .string "view"), ("tyle", .object [("weight", .null)])] := by
  rfl

end ContentCard
