import ContentCard.Proofs.Node.LegacyKeys

/-!
# Changing the styles of a payload

A rule for style entries, applied to the style of every node that is read from a payload
(`Value.mapStyles`), gives the same nodes with changed styles.  If the rule changes the meaning of
no style, the payload renders as before.
-/

namespace ContentCard

open Json

/-! ## 1. Payloads and nodes with changed styles -/

namespace Json

mutual

/-- The same value with the style entries of all nodes that are read from it changed by `f`. -/
def Value.mapStyles (f : Members → Members) : Value → Value
  | .object members =>
    .object (Members.modify
      (if NodeData.typeOf members = .view then mapStylesAt f (Members.childrenKey members) members
      else members)
      (Members.styleKey members) (Value.mapMembers f))
  | .array items => .array (mapStylesAll f items)
  | v => v

def mapStylesAll (f : Members → Members) : List Value → List Value
  | [] => []
  | v :: rest => v.mapStyles f :: mapStylesAll f rest

/-- The members with changed styles in all nodes under one of them. -/
def mapStylesAt (f : Members → Members) (key : String) : List (String × Value) → Members
  | [] => []
  | (k, v) :: rest => (k, if k = key then v.mapStyles f else v) :: mapStylesAt f key rest

end

theorem mapStylesAt_eq_modify (f : Members → Members) (key : String) (members : Members) :
    mapStylesAt f key members = members.modify key (Value.mapStyles f) := by
  induction members with
  | nil => rfl
  | cons m rest ih => rw [mapStylesAt, ih]; rfl

end Json

def NodeData.mapStyle (f : Members → Members) (data : NodeData) : NodeData :=
  { data with style := ⟨f data.style.entries⟩ }

namespace Node

mutual

/-- The same node with all styles changed by `f`. -/
def mapStyles (f : Members → Members) : Node → Node
  | mk data children => mk (data.mapStyle f) (mapStylesAll f children)

def mapStylesAll (f : Members → Members) : List Node → List Node
  | [] => []
  | n :: rest => n.mapStyles f :: mapStylesAll f rest

end

theorem mapStylesAll_append (f : Members → Members) (ns ms : List Node) :
    mapStylesAll f (ns ++ ms) = mapStylesAll f ns ++ mapStylesAll f ms := by
  induction ns with
  | nil => rfl
  | cons n rest ih => rw [List.cons_append, mapStylesAll, mapStylesAll, ih, List.cons_append]

end Node

/-! ## 2. Reading a payload with changed styles -/

section Members

variable {f : Members → Members} (members : Members)

theorem Json.Members.agreeOff_mapStylesAt :
    Members.AgreeOff ["child", "children"] (mapStylesAt f members.childrenKey members)
      members := by
  rw [mapStylesAt_eq_modify]
  refine (Members.agreeOff_modify _ _ _).mono ?_
  exact List.cons_subset.mpr ⟨members.childrenKey_mem, List.nil_subset _⟩

theorem Json.Members.childrenKey_mapStylesAt :
    Members.childrenKey (mapStylesAt f members.childrenKey members) = members.childrenKey := by
  have h : ((mapStylesAt f members.childrenKey members).get? "children").isSome =
      (members.get? "children").isSome := by
    rw [mapStylesAt_eq_modify, Members.get?_modify]
    split
    · exact Option.isSome_map
    · rfl
  rw [Members.childrenKey, h, Members.childrenKey]

/-- The style in use is changed, and nothing else that a node says about itself. -/
theorem NodeData.ofMembers_modify_styleKey (hf : f [] = []) :
    ofMembers (members.modify members.styleKey (Value.mapMembers f)) =
      (ofMembers members).mapStyle f := by
  have h : Members.AgreeOff ["tyle", "style"]
      (members.modify members.styleKey (Value.mapMembers f)) members :=
    (Members.agreeOff_modify _ _ _).mono
      (List.cons_subset.mpr ⟨members.styleKey_mem, List.nil_subset _⟩)
  have hs : styleOf (members.modify members.styleKey (Value.mapMembers f)) =
      ⟨f (styleOf members).entries⟩ := by
    rw [styleOf_eq, Members.bind_or_bind_modify_styleKey, styleOf_eq]
    cases ((members.get? "style").bind Value.object?).or
      ((members.get? "tyle").bind Value.object?) with
    | none => exact congrArg Declarations.mk hf.symm
    | some entries => rfl
  simp (disch := decide) only [ofMembers, mapStyle, typeOf, hs, h.string?]

theorem Node.childrenOf_modify_styleKey (g : Value → Value) :
    childrenOf (members.modify members.styleKey g) = childrenOf members := by
  have hk := members.styleKey_mem
  have hget (key : String) (h : key ∉ ["tyle", "style"]) :
      (members.modify members.styleKey g).get? key = members.get? key := by
    have hne : key ≠ members.styleKey := fun he => h (he ▸ hk)
    rw [Members.get?_modify, if_neg hne]
  rw [childrenOf_eq_or, childrenOf_eq_or]
  simp only [listOfMember_eq, hget "children" (by decide), hget "child" (by decide)]

end Members

namespace Node

variable {f : Members → Members}

theorem ofMembers_modify_styleKey (hf : f [] = []) (members : Members) :
    ofMembers (members.modify members.styleKey (Value.mapMembers f)) =
      mk ((ofMembers members).data.mapStyle f) (ofMembers members).children := by
  show mk _ (if _ then _ else _) = _
  rw [NodeData.ofMembers_modify_styleKey members hf, childrenOf_modify_styleKey]
  rfl

theorem childrenOf_mapStylesAt {members : Members}
    (h : listOfMember members.childrenKey (Json.mapStylesAt f members.childrenKey members) =
      (listOfMember members.childrenKey members).map (mapStylesAll f)) :
    childrenOf (Json.mapStylesAt f members.childrenKey members) =
      mapStylesAll f (childrenOf members) := by
  rw [childrenOf_eq, Members.childrenKey_mapStylesAt, h, childrenOf_eq]
  cases listOfMember members.childrenKey members <;> rfl

theorem ofMembers_mapStyles (hf : f [] = []) {members : Members}
    (h : listOfMember members.childrenKey (Json.mapStylesAt f members.childrenKey members) =
      (listOfMember members.childrenKey members).map (mapStylesAll f)) :
    ofMembers (Members.modify
      (if NodeData.typeOf members = .view then Json.mapStylesAt f members.childrenKey members
      else members) members.styleKey (Value.mapMembers f)) = (ofMembers members).mapStyles f := by
  by_cases ht : NodeData.typeOf members = .view
  · have ha := members.agreeOff_mapStylesAt (f := f)
    have hd := NodeData.ofMembers_congr ha
    have hk : members.styleKey =
        Members.styleKey (Json.mapStylesAt f members.childrenKey members) := by
      rw [Members.styleKey, Members.styleKey, ha "style" (by decide)]
    have ht' := (congrArg NodeData.type hd).trans ht
    rw [if_pos ht, hk, ofMembers_modify_styleKey hf, ofMembers_of_view ht', ofMembers_of_view ht,
      hd]
    exact congrArg (mk _) (childrenOf_mapStylesAt h)
  · rw [if_neg ht, ofMembers_modify_styleKey hf, ofMembers_of_ne_view ht]
    rfl

mutual

theorem listOfValue_mapStyles (hf : f [] = []) (v : Value) :
    listOfValue (v.mapStyles f) = mapStylesAll f (listOfValue v) := by
  cases v with
  | object members =>
    rw [Value.mapStyles, listOfValue_object, listOfValue_object,
      ofMembers_mapStyles hf (listOfMember_mapStylesAt hf _ members)]
    rfl
  | array items =>
    rw [Value.mapStyles, listOfValue, listOfValue]
    exact listOfValues_mapStylesAll hf items
  | null | bool | number | string => rfl

theorem listOfValues_mapStylesAll (hf : f [] = []) (vs : List Value) :
    listOfValues (Json.mapStylesAll f vs) = mapStylesAll f (listOfValues vs) := by
  cases vs with
  | nil => rfl
  | cons v rest =>
    rw [Json.mapStylesAll, listOfValues, listOfValues, mapStylesAll_append,
      listOfValue_mapStyles hf v, listOfValues_mapStylesAll hf rest]

theorem listOfMember_mapStylesAt (hf : f [] = []) (key : String)
    (members : List (String × Value)) :
    listOfMember key (Json.mapStylesAt f key members) =
      (listOfMember key members).map (mapStylesAll f) := by
  match members with
  | [] => rfl
  | (k, v) :: rest =>
    rw [Json.mapStylesAt, listOfMember, listOfMember]
    by_cases h : key = k
    · rw [if_pos h, if_pos h, if_pos h.symm, listOfValue_mapStyles hf v, Option.map_some]
    · rw [if_neg h, if_neg h, listOfMember_mapStylesAt hf key rest]

end

end Node

theorem Template.ofValue_mapStyles {f : Members → Members} (hf : f [] = []) (payload : Members) :
    Template.ofValue ((Value.object payload).mapStyles f) =
      .ok ⟨(Node.ofMembers payload).mapStyles f⟩ := by
  have h := Node.ofMembers_mapStyles hf (Node.listOfMember_mapStylesAt hf _ payload)
  rw [Value.mapStyles, Template.ofValue, h]

/-! ## 3. Rendering -/

namespace Visual

variable (s : Surroundings) {f : Members → Members}

mutual

theorem ofNode_mapStyles
    (hf : ∀ parent entries, Style.resolve s.config parent ⟨f entries⟩ =
      Style.resolve s.config parent ⟨entries⟩) (parent : Direction) (n : Node) :
    ofNode s parent (n.mapStyles f) = ofNode s parent n := by
  cases n with
  | mk data children =>
    have hs : Style.resolve s.config parent (data.mapStyle f).style =
        Style.resolve s.config parent data.style := hf parent data.style.entries
    -- the direction that the children get is read from the style, so they are equal in any
    have hc := fun parent => ofNodes_mapStylesAll hf parent children
    rw [Node.mapStyles, ofNode, ofNode]
    simp only [hs, hc]
    rfl

theorem ofNodes_mapStylesAll
    (hf : ∀ parent entries, Style.resolve s.config parent ⟨f entries⟩ =
      Style.resolve s.config parent ⟨entries⟩) (parent : Direction) (ns : List Node) :
    ofNodes s parent (Node.mapStylesAll f ns) = ofNodes s parent ns := by
  cases ns with
  | nil => rfl
  | cons n rest =>
    rw [Node.mapStylesAll, ofNodes, ofNodes, ofNode_mapStyles hf parent n,
      ofNodes_mapStylesAll hf parent rest]

end

end Visual

end ContentCard
