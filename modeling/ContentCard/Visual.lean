import ContentCard.Picture
import ContentCard.Style
import ContentCard.Text.Measure
import ContentCard.Web.Address

/-!
Visual trees: what a card shows, independent of the host that lays it out and paints it.

Every visual has a box.  Containers hold visuals; text, images, buttons and placeholders are
leaves.
-/

namespace ContentCard

/-- The size of a box's content; a side without a value comes out of the layout. -/
structure NaturalSize where
  width : Option Float32
  height : Option Float32
deriving BEq, Repr, Inhabited

namespace NaturalSize

def unknown : NaturalSize := ⟨none, none⟩

def ofSize (s : Size) : NaturalSize := ⟨some s.width, some s.height⟩

end NaturalSize

structure Box where
  background : Option Color
  border : Border
  margin : Edges
  padding : Edges
  width : Extent
  height : Extent
  aspectRatio : Option Float32
  natural : NaturalSize
deriving BEq, Repr, Inhabited

namespace Box

/-- Border and padding. -/
def insets (b : Box) : Edges := Edges.all b.border.width + b.padding

/-- A box without decoration around content of the given size. -/
def plain (natural : NaturalSize) : Box where
  background := none
  border := .none
  margin := .zero
  padding := .zero
  width := .natural
  height := .natural
  aspectRatio := none
  natural := natural

end Box

/-- Text with its font; with a line limit it is never broken into more lines. -/
structure Lettering where
  content : String
  fontSize : Float32
  fontWeight : FontWeight
  /-- Without a colour the host's own is used. -/
  color : Option Color
  lineLimit : Option Nat
deriving BEq, Repr, Inhabited

namespace Lettering

/-- The lines as they are shown without breaking. -/
def shownLines (t : Lettering) : List String :=
  (Text.limitLines t.lineLimit (Text.paragraphs t.content.toList)).map String.ofList

def wrappedLines (t : Lettering) (measure : Measurer) (limit : Option Float32) : List String :=
  if t.lineLimit.isSome then t.shownLines
  else measure.wrap t.content t.fontSize t.fontWeight limit

end Lettering

/-- How a container arranges its children. -/
structure Arrangement where
  direction : Direction
  justify : Alignment
  align : Alignment
deriving DecidableEq, Repr, Inhabited

/-- The state of an image when the card was rendered. -/
inductive ImagePhase
  | pending
  | loaded (width height : Nat)
  | failed
deriving DecidableEq, Repr, Inhabited

structure TapAction where
  interactionId : String
  actionUrl : Option Web.Address
deriving DecidableEq, Repr

structure ImageContent where
  url : Option Web.Address
  scale : ContentScale
  phase : ImagePhase
deriving DecidableEq, Repr

structure ButtonContent where
  label : Lettering
  action : TapAction

/-- A note in place of a node of unknown type. -/
structure Notice where
  typeName : String
  message : String
deriving DecidableEq, Repr

inductive Visual
  | container (box : Box) (arrangement : Arrangement) (children : List Visual)
  | text (box : Box) (lettering : Lettering)
  | image (box : Box) (content : ImageContent)
  | button (box : Box) (content : ButtonContent)
  | placeholder (box : Box) (notice : Notice)

instance : Inhabited Visual := ⟨.placeholder (.plain .unknown) ⟨"", ""⟩⟩

namespace Visual

def box : Visual → Box
  | container box _ _ | text box _ | image box _ | button box _ | placeholder box _ => box

def children : Visual → List Visual
  | container _ _ children => children
  | _ => []

def kind : Visual → String
  | container .. => "container"
  | text .. => "text"
  | image .. => "image"
  | button .. => "button"
  | placeholder .. => "placeholder"

end Visual

end ContentCard
