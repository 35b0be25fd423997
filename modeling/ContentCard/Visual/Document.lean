import ContentCard.Config.Reader
import ContentCard.Visual

/-!
Visual trees as JSON documents.
-/

namespace ContentCard

open Json

def Edges.document (e : Edges) : Document :=
  .object [("top", .single e.top), ("right", .single e.right), ("bottom", .single e.bottom),
    ("left", .single e.left)]

def Rect.document (r : Rect) : Document :=
  .object [("x", .single r.x), ("y", .single r.y), ("width", .single r.width),
    ("height", .single r.height)]

def Border.document (b : Border) : Document :=
  .object [("width", .single b.width), ("color", b.color.document), ("radius", .single b.radius)]

def Extent.document : Extent → Document
  | .percent v => .object [("percent", .single v)]
  | .weighted w => .object [("weighted", .single w)]
  | .fill => .string "fill"
  | .fixed v => .object [("fixed", .single v)]
  | .natural => .string "natural"

def NaturalSize.document (n : NaturalSize) : Document :=
  .object [("width", .option .single n.width), ("height", .option .single n.height)]

/-- The members that every visual has. -/
def Box.members (b : Box) : List (String × Document) :=
  [("background", .option Color.document b.background), ("border", b.border.document),
    ("margin", b.margin.document), ("padding", b.padding.document), ("width", b.width.document),
    ("height", b.height.document), ("aspectRatio", .option .single b.aspectRatio),
    ("intrinsic", b.natural.document)]

def Web.Address.document (a : Web.Address) : Document := .string a.text

def Lettering.members (t : Lettering) : List (String × Document) :=
  [("content", .string t.content), ("fontSize", .single t.fontSize),
    ("fontWeight", .string t.fontWeight.name), ("color", .option Color.document t.color),
    ("lineLimit", .option (fun n => .integer n) t.lineLimit)]

def ImagePhase.document : ImagePhase → Document
  | .pending => .object [("state", .string "pending")]
  | .loaded w h =>
    .object [("state", .string "loaded"), ("width", .integer w), ("height", .integer h)]
  | .failed => .object [("state", .string "failed")]

def TapAction.document (a : TapAction) : Document :=
  .object [("interactionId", .string a.interactionId),
    ("actionUrl", .option Web.Address.document a.actionUrl)]

namespace Visual

mutual

def document : Visual → Document
  | container box a children =>
    .object ([("kind", .string "container"), ("direction", .string a.direction.name),
      ("justifyContent", .string a.justify.name), ("alignItems", .string a.align.name),
      ("children", .array (documents children))] ++ box.members)
  | text box t => .object (("kind", .string "text") :: t.members ++ box.members)
  | image box c =>
    .object ([("kind", .string "image"), ("url", .option Web.Address.document c.url),
      ("contentScale", .string c.scale.name), ("phase", c.phase.document)] ++ box.members)
  | button box c =>
    .object ([("kind", .string "button"),
      ("label", .object (c.label.members ++ (Box.plain box.natural).members)),
      ("action", c.action.document)] ++ box.members)
  | placeholder box n =>
    .object ([("kind", .string "placeholder"), ("typeName", .string n.typeName),
      ("message", .string n.message)] ++ box.members)

def documents : List Visual → List Document
  | [] => []
  | v :: rest => document v :: documents rest

end

end Visual

end ContentCard
