import ContentCard.Layout.Leaf
import ContentCard.Layout.Line
import ContentCard.Layout.Overlay

/-!
The sizer of an item, from the sizers of its children.
-/

namespace ContentCard.Layout

/-- The size of a container.  One without children is a leaf without content. -/
def containerSizer (style : ItemStyle) (flow : Flow)
    (children : List (ItemStyle × Sizer)) : Sizer :=
  fun r m =>
    if children.isEmpty then leafSizer style emptyContent r m
    else
      let (size, memos) :=
        match flow with
        | .line axis justify align => Line.size style axis justify align children r m.children
        | .overlay align => Overlay.size style align children r m.children
      (size, .mk m.cache m.place memos)

mutual

def Item.sizer (measure : Measurer) : Item → Sizer
  | .container style flow children =>
    .remembering (containerSizer style flow (Item.sizers measure children))
  | .text style run => .remembering (leafSizer style (run.contentSize measure))
  | .solid style => .remembering (leafSizer style emptyContent)

def Item.sizers (measure : Measurer) : List Item → List (ItemStyle × Sizer)
  | [] => []
  | item :: rest => (item.style, item.sizer measure) :: Item.sizers measure rest

end

mutual

/-- What an item remembers before it has been asked for anything. -/
def Item.memo : Item → Memo
  | .container _ _ children => .mk .empty .origin (Item.memos children)
  | .text _ _ | .solid _ => .fresh

def Item.memos : List Item → List Memo
  | [] => []
  | item :: rest => item.memo :: Item.memos rest

end

end ContentCard.Layout
