import ContentCard.Style.Declarations

/-!
Card nodes as they are read from JSON.

Reading never fails.  A member of the wrong type counts as absent, an unknown type keeps its name,
and only a `view` has children: every object under its `children`, through arrays of any nesting,
in the order of the text.
-/

namespace ContentCard

open Json

inductive NodeType
  | view
  | text
  | image
  | button
  /-- Any other type, by its name. -/
  | unknown (name : String)
deriving DecidableEq, Repr, Inhabited

namespace NodeType

def parse : String → NodeType
  | "view" => view
  | "text" => text
  | "image" => image
  | "button" => button
  | name => unknown name

def name : NodeType → String
  | view => "view"
  | text => "text"
  | image => "image"
  | button => "button"
  | unknown name => name

def isKnown : NodeType → Bool
  | unknown _ => false
  | _ => true

end NodeType

/-- What a node says about itself; every member is kept, whatever the type is. -/
structure NodeData where
  type : NodeType
  style : Declarations
  content : Option String
  url : Option String
  label : Option String
  actionUrl : Option String
  interactionId : Option String
deriving BEq, Repr, Inhabited

inductive Node
  | mk (data : NodeData) (children : List Node)
deriving BEq, Repr, Inhabited

namespace NodeData

def typeOf (members : Members) : NodeType :=
  match members.string? "type" with
  | some name => .parse name
  | none => .unknown ""

/-- `style`, or the older spelling `tyle` if `style` holds no object. -/
def styleOf (members : Members) : Declarations :=
  match (members.get? "style").bind Value.object? with
  | some entries => ⟨entries⟩
  | none =>
    match (members.get? "tyle").bind Value.object? with
    | some entries => ⟨entries⟩
    | none => .empty

def ofMembers (members : Members) : NodeData where
  type := typeOf members
  style := styleOf members
  content := members.string? "content"
  url := members.string? "url"
  label := members.string? "label"
  actionUrl := members.string? "actionUrl"
  interactionId := members.string? "interactionId"

end NodeData

namespace Node

def data : Node → NodeData
  | mk data _ => data

def children : Node → List Node
  | mk _ children => children

mutual

/-- The nodes of the objects in a `children` value. -/
def listOfValue : Value → List Node
  | .object members =>
    let data := NodeData.ofMembers members
    let children :=
      if data.type = .view then
        match listOfMember "children" members with
        | some nodes => nodes
        | none => (listOfMember "child" members).getD []
      else []
    [mk data children]
  | .array items => listOfValues items
  | _ => []

def listOfValues : List Value → List Node
  | [] => []
  | v :: rest => listOfValue v ++ listOfValues rest

/-- The nodes under a key, if there is such a member. -/
def listOfMember (key : String) : List (String × Value) → Option (List Node)
  | [] => none
  | (k, v) :: rest => if key = k then some (listOfValue v) else listOfMember key rest

end

/-- The nodes under `children`, or under the older key `child` if there is no `children`. -/
def childrenOf (members : Members) : List Node :=
  match listOfMember "children" members with
  | some nodes => nodes
  | none => (listOfMember "child" members).getD []

def ofMembers (members : Members) : Node :=
  let data := NodeData.ofMembers members
  mk data (if data.type = .view then childrenOf members else [])

/-- A value that is no object has its kind as its unknown type. -/
def ofValue : Value → Node
  | .object members => ofMembers members
  | v => mk ⟨.unknown v.kind.name, .empty, none, none, none, none, none⟩ []

theorem listOfValue_object (members : Members) :
    listOfValue (.object members) = [ofMembers members] := by
  simp only [listOfValue, ofMembers, childrenOf]

end Node

end ContentCard
