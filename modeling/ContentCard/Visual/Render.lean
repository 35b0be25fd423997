import ContentCard.Template
import ContentCard.Visual

/-!
From nodes to visuals: every node becomes one visual of the kind that its type says.
-/

namespace ContentCard

/-- What a rendering asks its host for. -/
structure Surroundings where
  config : Config
  measure : Measurer
  images : ImageSource

namespace Style

def box (style : Style) (config : Config) (parent : Direction) (natural : NaturalSize) : Box where
  background := style.background
  border := style.border
  margin := style.margin
  padding := style.padding
  width := style.extent config.fillPrecedence .horizontal parent
  height := style.extent config.fillPrecedence .vertical parent
  aspectRatio := style.aspectRatio
  natural := natural

/-- What a button is given where its style declares nothing. -/
def withButtonDefaults (style : Style) (b : ButtonDefaults) : Style :=
  { style with
    background := some (style.background.getD b.background)
    border :=
      if style.hasBorderRadius then style.border
      else { style.border with radius := b.borderRadius }
    margin :=
      if style.hasMarginBottom then style.margin
      else { style.margin with bottom := b.bottomMargin }
    padding :=
      if style.hasPadding then style.padding
      else .symmetric b.paddingVertical b.paddingHorizontal }

end Style

def readAddress (text : String) : Option Web.Address := Web.Address.parse? (Text.trim text)

def imagePhase (images : ImageSource) (url : Option Web.Address) : ImagePhase :=
  match url.map fun u => images u.text with
  | none | some .failed => .failed
  | some .pending => .pending
  | some (.loaded picture) => .loaded picture.width picture.height

/-- With an aspect ratio one side follows from the other; without one an image is a square until
its size is declared, so that its box does not change when it arrives. -/
def imageNaturalSize (aspectRatio : Option Float32) (width : Extent) (side : Float32) :
    NaturalSize :=
  match aspectRatio, width with
  | none, _ => ⟨some side, some side⟩
  | some _, .natural => ⟨none, some side⟩
  | some _, _ => ⟨none, none⟩

def noticeFontSize : Float32 := 12

def noticeMessage (typeName : String) : String :=
  if typeName = "" then "Unsupported component (missing type)"
  else "Unsupported component: " ++ typeName

namespace Visual

def ofText (s : Surroundings) (parent : Direction) (style : Style) (data : NodeData) : Visual :=
  let content := data.content.getD ""
  let size := s.measure content style.fontSize style.fontWeight
  text (style.box s.config parent (.ofSize size))
    ⟨content, style.fontSize, style.fontWeight, style.textColor, none⟩

def ofImage (s : Surroundings) (parent : Direction) (style : Style) (data : NodeData) : Visual :=
  let url := data.url.bind readAddress
  let width := style.extent s.config.fillPrecedence .horizontal parent
  let natural := imageNaturalSize style.aspectRatio width s.config.imageDefaultHeight
  image (style.box s.config parent natural) ⟨url, style.contentScale, imagePhase s.images url⟩

def ofButton (s : Surroundings) (parent : Direction) (style : Style) (data : NodeData) : Visual :=
  let defaults := s.config.button
  let label : Lettering :=
    { content := data.label.getD ""
      fontSize := style.fontSize
      fontWeight := style.fontWeight
      color := some (style.textColor.getD defaults.textColor)
      lineLimit := some 1 }
  let size := s.measure (String.join label.shownLines) label.fontSize label.fontWeight
  button ((style.withButtonDefaults defaults).box s.config parent (.ofSize size))
    ⟨label, ⟨data.interactionId.getD "", data.actionUrl.bind readAddress⟩⟩

def ofUnknown (s : Surroundings) (parent : Direction) (style : Style) (typeName : String) :
    Visual :=
  let message := noticeMessage typeName
  let size := s.measure message noticeFontSize .regular
  placeholder (style.box s.config parent (.ofSize size)) ⟨typeName, message⟩

mutual

/-- The visual of a node in a parent with the given direction. -/
def ofNode (s : Surroundings) (parent : Direction) : Node → Visual
  | .mk data children =>
    let style := Style.resolve s.config parent data.style
    match data.type with
    | .view =>
      container (style.box s.config parent .unknown)
        ⟨style.direction, style.justifyContent, style.alignItems⟩
        (ofNodes s style.direction children)
    | .text => ofText s parent style data
    | .image => ofImage s parent style data
    | .button => ofButton s parent style data
    | .unknown name => ofUnknown s parent style name

def ofNodes (s : Surroundings) (parent : Direction) : List Node → List Visual
  | [] => []
  | n :: rest => ofNode s parent n :: ofNodes s parent rest

end

end Visual

/-- The root is a child of a column. -/
def Template.render (t : Template) (s : Surroundings) : Visual := Visual.ofNode s .column t.root

end ContentCard
