import ContentCard.Proofs.Node.LegacyKeys

/-!
# The children of a view

A view's children are the nodes of the objects under its `children` key, or under the older `child`
key, in the order of the text.  How arrays are nested around the objects and what stands between
them leaves no trace in the node.
-/

namespace ContentCard

open Json

/-! ## 1. Objects in a value -/

namespace Json

mutual

/-- The objects in a value, through arrays of any nesting, in the order of the text. -/
def Value.objects : Value → List Members
  | .object members => [members]
  | .array items => objectsAll items
  | _ => []

def objectsAll : List Value → List Members
  | [] => []
  | v :: rest => v.objects ++ objectsAll rest

end

/-- The objects that an object shows inside it: those under the children of a view. -/
def Members.childObjects (members : Members) : List Members :=
  if NodeData.typeOf members = .view then
    (((members.get? "children").or (members.get? "child")).map Value.objects).getD []
  else []

theorem objectsAll_map_object (ms : List Members) : objectsAll (ms.map .object) = ms := by
  induction ms with
  | nil => rfl
  | cons m rest ih =>
    rw [List.map_cons, objectsAll, ih]
    rfl

/-- Every value holds the same objects as one array without any other array in it. -/
theorem Value.objects_array_map_object (ms : List Members) :
    (Value.array (ms.map .object)).objects = ms := by
  rw [objects, objectsAll_map_object]

end Json

/-! ## 2. Nodes of the objects -/

namespace Node

mutual

theorem listOfValue_eq_map (v : Value) : listOfValue v = v.objects.map ofMembers := by
  cases v with
  | object members => rw [listOfValue_object]; rfl
  | array items => rw [listOfValue, Value.objects, listOfValues_eq_map items]
  | null | bool | number | string => rfl

theorem listOfValues_eq_map (vs : List Value) :
    listOfValues vs = (objectsAll vs).map ofMembers := by
  cases vs with
  | nil => rfl
  | cons v rest =>
    rw [listOfValues, objectsAll, List.map_append, listOfValue_eq_map v, listOfValues_eq_map rest]

end

theorem type_ofMembers (members : Members) :
    (ofMembers members).data.type = NodeData.typeOf members := rfl

theorem children_ofMembers (members : Members) :
    (ofMembers members).children = members.childObjects.map ofMembers := by
  rw [Members.childObjects]
  by_cases ht : NodeData.typeOf members = .view
  · rw [ofMembers_of_view ht, if_pos ht]
    show childrenOf members = _
    rw [childrenOf_eq_or, listOfMember_eq, listOfMember_eq]
    cases members.get? "children" with
    | some v => exact listOfValue_eq_map v
    | none =>
      cases members.get? "child" with
      | some v => exact listOfValue_eq_map v
      | none => rfl
  · rw [ofMembers_of_ne_view ht, if_neg ht]
    rfl

/-- A node is what its object says about it and the objects that it shows. -/
theorem ofMembers_congr {m m' : Members} (hdata : NodeData.ofMembers m = NodeData.ofMembers m')
    (hobjects : m.childObjects = m'.childObjects) : ofMembers m = ofMembers m' := by
  have hmk (m : Members) : ofMembers m = mk (NodeData.ofMembers m) (ofMembers m).children := rfl
  rw [hmk m, hmk m', children_ofMembers, children_ofMembers, hdata, hobjects]

end Node

/-! ## 3. Only the sequence of the objects counts -/

namespace Json.Members

variable (members : Members) (v : Value)

/-- What stands under the keys of the children says nothing about the type. -/
theorem AgreeOff.typeOf_eq {m m' : Members} (h : AgreeOff ["child", "children"] m m') :
    NodeData.typeOf m = NodeData.typeOf m' :=
  congrArg NodeData.type (NodeData.ofMembers_congr h)

theorem agreeOff_insert_children :
    AgreeOff ["child", "children"] (members.insert "children" v) members :=
  (members.agreeOff_insert "children" v).mono (by decide)

theorem agreeOff_insert_child :
    AgreeOff ["child", "children"] ((members.erase "children").insert "child" v) members :=
  ((members.erase "children").agreeOff_insert "child" v).trans (members.agreeOff_erase "children")

variable {members} (hview : NodeData.typeOf members = .view)

include hview

theorem childObjects_insert_children :
    (members.insert "children" v).childObjects = v.objects := by
  rw [childObjects, (members.agreeOff_insert_children v).typeOf_eq, if_pos hview,
    get?_insert_self]
  rfl

theorem childObjects_insert_child :
    ((members.erase "children").insert "child" v).childObjects = v.objects := by
  have hchildren : "children" ≠ "child" := by decide
  rw [childObjects, (members.agreeOff_insert_child v).typeOf_eq, if_pos hview,
    get?_insert_of_ne _ hchildren, get?_erase_self, get?_insert_self]
  rfl

end Json.Members

namespace Node

section

variable {members : Members} (hview : NodeData.typeOf members = .view) {v w : Value}
  (h : v.objects = w.objects)

include hview h

theorem ofMembers_insert_children_congr :
    ofMembers (members.insert "children" w) = ofMembers (members.insert "children" v) := by
  have hv := members.agreeOff_insert_children v
  have hw := members.agreeOff_insert_children w
  refine ofMembers_congr ?_ ?_
  · rw [NodeData.ofMembers_congr hw, NodeData.ofMembers_congr hv]
  · rw [Members.childObjects_insert_children w hview, Members.childObjects_insert_children v hview,
      h]

theorem ofMembers_insert_child_congr :
    ofMembers ((members.erase "children").insert "child" w) =
      ofMembers (members.insert "children" v) := by
  have hv := members.agreeOff_insert_children v
  have hw := members.agreeOff_insert_child w
  refine ofMembers_congr ?_ ?_
  · rw [NodeData.ofMembers_congr hw, NodeData.ofMembers_congr hv]
  · rw [Members.childObjects_insert_child w hview, Members.childObjects_insert_children v hview, h]

end

/-- A view is read to the same node from any two values under `children` that hold the same objects
in the same order, and from such a value under `child` where there is no `children`.  Its children
are the nodes of these objects in their order, and one object stands for an array of it. -/
theorem ofMembers_of_objects_eq {members : Members} (hview : NodeData.typeOf members = .view)
    {v w : Value} (h : v.objects = w.objects) :
    ofMembers (members.insert "children" w) = ofMembers (members.insert "children" v) ∧
      ofMembers ((members.erase "children").insert "child" w) =
        ofMembers (members.insert "children" v) ∧
      ofMembers (members.insert "children" (.array (v.objects.map .object))) =
        ofMembers (members.insert "children" v) ∧
      (ofMembers (members.insert "children" v)).children = v.objects.map ofMembers ∧
      ∀ object, ofMembers (members.insert "children" (.object object)) =
        ofMembers (members.insert "children" (.array [.object object])) := by
  refine ⟨ofMembers_insert_children_congr hview h, ofMembers_insert_child_congr hview h,
    ofMembers_insert_children_congr hview (Value.objects_array_map_object v.objects).symm, ?_,
    fun object => ofMembers_insert_children_congr hview rfl⟩
  rw [children_ofMembers, Members.childObjects_insert_children v hview]

/-- Two texts between a null, an empty array and a number, and the same two without all that. -/
theorem ofMembers_nestedTexts :
    let view : Members := [("style", .object []), ("type", .string "view")]
    let a : Members := [("content", .string "a"), ("type", .string "text")]
    let b : Members := [("content", .string "b"), ("type", .string "text")]
    let nested : Value := .array [.null, .object a, .array [], .array [.array [.object b,
      .number (.natural 42)]]]
    let plain : Value := .array [.array [.object a], .object b]
    NodeData.typeOf view = .view ∧ nested.objects = plain.objects ∧
      ofMembers (view.insert "children" plain) = ofMembers (view.insert "children" nested) ∧
      ofMembers ((view.erase "children").insert "child" plain) =
        ofMembers (view.insert "children" nested) ∧
      (ofMembers (view.insert "children" nested)).children = [ofMembers a, ofMembers b] := by
  intro view a b nested plain
  have hview : NodeData.typeOf view = .view := rfl
  have hobjects : nested.objects = plain.objects := rfl
  obtain ⟨hchildren, hchild, -, hnodes, -⟩ := ofMembers_of_objects_eq hview hobjects
  exact ⟨hview, hobjects, hchildren, hchild, hnodes⟩

end Node

end ContentCard
