import ContentCard.Config
import ContentCard.Geometry
import ContentCard.Number.Decimal
import ContentCard.Style.Declarations

/-!
Styles: what the declarations of a node mean for its geometry and its colours.

Nothing here fails.  A missing entry, an entry of the wrong type and a value out of range all leave
the default.
-/

namespace ContentCard

/-- A declared width or height. -/
inductive Length
  | auto
  | points (v : Float32)
  /-- Hundredths of the parent's size; values over 100 are kept. -/
  | percent (v : Float32)
  /-- The number -1. -/
  | fill
deriving BEq, Repr, Inhabited

structure Border where
  width : Float32
  color : Color
  radius : Float32
deriving BEq, Repr, Inhabited

def Border.none : Border := ⟨0, .transparent, 0⟩

structure Style where
  background : Option Color
  border : Border
  margin : Edges
  padding : Edges
  width : Length
  height : Length
  fillWidth : Bool
  fillHeight : Bool
  /-- Zero in a parent without a main axis. -/
  weight : Float32
  aspectRatio : Option Float32
  fontSize : Float32
  fontWeight : FontWeight
  textColor : Option Color
  contentScale : ContentScale
  direction : Direction
  justifyContent : Alignment
  alignItems : Alignment
  /-- Some padding was declared. -/
  hasPadding : Bool
  hasMarginBottom : Bool
  hasBorderRadius : Bool
deriving BEq, Repr, Inhabited

/-- `50%` is 50. -/
def percentage? (text : String) : Option Float32 :=
  match (Text.trimList text.toList).reverse with
  | '%' :: rest =>
    (Number.float32? (String.ofList (Text.trimList rest.reverse))).filter Float32.isFinite
  | _ => none

/-- `W/H` is the quotient of two positive numbers. -/
def aspectRatio? (text : String) : Option Float32 :=
  let cs := text.toList
  match cs.dropWhile (· ≠ '/') with
  | [] => none
  | _ :: after =>
    let side (part : List Char) := Number.float32? (String.ofList (Text.trimList part))
    match side (cs.takeWhile (· ≠ '/')), side after with
    | some w, some h =>
      if 0 < w ∧ 0 < h ∧ w.isFinite ∧ h.isFinite then some (w / h) else none
    | _, _ => none

namespace Length

def ofNumber (v : Float32) : Length :=
  if v == -1 then fill else if 0 ≤ v then points v else auto

def ofDeclarations (d : Declarations) (key : String) : Length :=
  match d.float? key with
  | some v => ofNumber v
  | none =>
    match (d.string? key).bind percentage? with
    | some p => percent p
    | none => auto

end Length

namespace Declarations

def nonNegative? (d : Declarations) (key : String) : Option Float32 :=
  (d.float? key).filter fun v => 0 ≤ v

/-- A side's own key stands over its axis, and the axis over all four sides. -/
def edges (d : Declarations) (name : String) (valid : Float32 → Bool) : Edges :=
  let get (key : String) := (d.float? key).filter valid
  let all := (get name).getD 0
  let horizontal := (get (name ++ "Horizontal")).getD all
  let vertical := (get (name ++ "Vertical")).getD all
  { top := (get (name ++ "Top")).getD vertical
    right := (get (name ++ "Right")).getD horizontal
    bottom := (get (name ++ "Bottom")).getD vertical
    left := (get (name ++ "Left")).getD horizontal }

def paddingKeys : List String :=
  ["padding", "paddingHorizontal", "paddingVertical", "paddingTop", "paddingRight",
    "paddingBottom", "paddingLeft"]

/-- `weight`, or the older `flex` where there is no `weight`. -/
def weight (d : Declarations) : Float32 :=
  (((d.float? "weight").or (d.float? "flex")).filter fun w => 0 ≤ w).getD 0

end Declarations

/-- The meaning of declarations in a parent with the given direction. -/
def Style.resolve (config : Config) (parent : Direction) (d : Declarations) : Style where
  background := (d.string? "backgroundColor").bind Color.parse?
  border :=
    { width := (d.nonNegative? "borderWidth").getD 0
      color := ((d.string? "borderColor").bind Color.parse?).getD .transparent
      radius := (d.nonNegative? "borderRadius").getD 0 }
  margin := d.edges "margin" fun _ => true
  padding := d.edges "padding" fun v => 0 ≤ v
  width := .ofDeclarations d "width"
  height := .ofDeclarations d "height"
  fillWidth := (d.bool? "fillWidth").getD false
  fillHeight := (d.bool? "fillHeight").getD false
  weight := if parent.mainAxis?.isSome then d.weight else 0
  aspectRatio := (d.string? "aspectRatio").bind aspectRatio?
  fontSize := ((d.float? "fontSize").filter fun v => 0 < v).getD config.fontSize
  fontWeight := ((d.string? "fontWeight").map .parse).getD .regular
  textColor := ((d.string? "textColor").or (d.string? "color")).bind Color.parse?
  contentScale := ((d.string? "contentScale").bind ContentScale.parse?).getD config.contentScale
  direction := ((d.string? "flexDirection").map .parse).getD .column
  justifyContent := ((d.string? "justifyContent").map .parse).getD .start
  alignItems := ((d.string? "alignItems").map .parse).getD .start
  hasPadding := Declarations.paddingKeys.any fun k => (d.nonNegative? k).isSome
  hasMarginBottom := (d.firstFloat? ["marginBottom", "marginVertical", "margin"]).isSome
  hasBorderRadius := (d.nonNegative? "borderRadius").isSome

/-- The rule by which a box gets its size on one axis. -/
inductive Extent
  /-- Hundredths of the parent's content. -/
  | percent (v : Float32)
  /-- A share of the free space on the parent's main axis. -/
  | weighted (w : Float32)
  | fill
  | fixed (v : Float32)
  /-- As large as its content. -/
  | natural
deriving BEq, Repr, Inhabited

namespace Style

/-- A percentage stands over a weight, a weight over a fill, and the configuration says whether a
fill flag stands over a length. -/
def extent (style : Style) (precedence : FillPrecedence) (axis : Axis) (parent : Direction) :
    Extent :=
  let (length, fillFlag) := match axis with
    | .horizontal => (style.width, style.fillWidth)
    | .vertical => (style.height, style.fillHeight)
  match length with
  | .percent p => .percent p
  | length =>
    if parent.mainAxis? = some axis ∧ 0 < style.weight then .weighted style.weight
    else
      match length, fillFlag, precedence with
      | .fill, _, _ => .fill
      | .points _, true, .fill => .fill
      | .points v, _, _ => .fixed v
      | _, true, _ => .fill
      | _, false, _ => .natural

end Style

end ContentCard
