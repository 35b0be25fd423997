import ContentCard.Text.Blank

/-!
The keywords of a style: how a container arranges its children, how heavy a font is, and how a
picture is fitted into its box.

Keywords are read without white space at their ends and in any case of their letters.
-/

namespace ContentCard

inductive Axis
  | horizontal
  | vertical
deriving DecidableEq, Repr

/-- How a container arranges its children; an overlay puts them on top of each other. -/
inductive Direction
  | row
  | column
  | overlay
deriving DecidableEq, Repr, Inhabited

inductive Alignment
  | start
  | center
  | finish
  | spaceBetween
  | spaceAround
  | spaceEvenly
  | stretch
deriving DecidableEq, Repr, Inhabited

inductive FontWeight
  | thin
  | light
  | regular
  | medium
  | semibold
  | bold
  | heavy
  | black
deriving DecidableEq, Repr, Inhabited

/-- How a picture fills its box: whole, covering it, covering it and cut, or in its own size. -/
inductive ContentScale
  | fit
  | fill
  | crop
  | unscaled
deriving DecidableEq, Repr, Inhabited

/-- Text in the form in which keywords are compared. -/
def keyword (text : String) : String := Text.lower (Text.trim text)

namespace Axis

def other : Axis → Axis
  | horizontal => vertical
  | vertical => horizontal

def name : Axis → String
  | horizontal => "horizontal"
  | vertical => "vertical"

end Axis

namespace Direction

def parse (text : String) : Direction :=
  match keyword text with
  | "row" => row
  | "column" => column
  | _ => overlay

/-- An overlay has no main axis. -/
def mainAxis? : Direction → Option Axis
  | row => some .horizontal
  | column => some .vertical
  | overlay => none

def name : Direction → String
  | row => "row"
  | column => "column"
  | overlay => "overlay"

end Direction

namespace Alignment

/-- Hyphens and underscores do not count; an unknown word means `start`. -/
def parse (text : String) : Alignment :=
  let word := (Text.trimList text.toList).filter fun c => c ≠ '-' ∧ c ≠ '_'
  match Text.lower (String.ofList word) with
  | "start" | "flexstart" | "leading" | "top" | "left" => start
  | "center" | "middle" => center
  | "end" | "flexend" | "trailing" | "bottom" | "right" => finish
  | "spacebetween" => spaceBetween
  | "spacearound" => spaceAround
  | "spaceevenly" => spaceEvenly
  | "stretch" => stretch
  | _ => start

def name : Alignment → String
  | start => "start"
  | center => "center"
  | finish => "end"
  | spaceBetween => "spaceBetween"
  | spaceAround => "spaceAround"
  | spaceEvenly => "spaceEvenly"
  | stretch => "stretch"

end Alignment

namespace FontWeight

def parse (text : String) : FontWeight :=
  match keyword text with
  | "bold" | "700" => bold
  | "semibold" | "600" => semibold
  | "medium" | "500" => medium
  | "regular" | "400" => regular
  | "light" | "300" => light
  | "thin" | "100" => thin
  | "heavy" | "800" => heavy
  | "black" | "900" => black
  | _ => regular

def isBold : FontWeight → Bool
  | semibold | bold | heavy | black => true
  | _ => false

def name : FontWeight → String
  | thin => "thin"
  | light => "light"
  | regular => "regular"
  | medium => "medium"
  | semibold => "semibold"
  | bold => "bold"
  | heavy => "heavy"
  | black => "black"

end FontWeight

namespace ContentScale

def parse? (text : String) : Option ContentScale :=
  match keyword text with
  | "fit" => some fit
  | "fill" => some fill
  | "crop" => some crop
  | "none" => some unscaled
  | _ => none

def name : ContentScale → String
  | fit => "fit"
  | fill => "fill"
  | crop => "crop"
  | unscaled => "none"

end ContentScale

end ContentCard
