import ContentCard.Number.Decimal
import ContentCard.Text.Quoted

/-!
The options of the preview program.
-/

namespace ContentCard.Preview

structure Options where
  payload : String := ""
  width : Float32 := 375
  height : Option Float32 := none
  config : Option String := none
  font : Option String := none
  out : Option String := none
  dump : Bool := false

inductive OptionFault
  | usage
  | unknown (option : String)
  | missingValue (option : String)
  | badNumber (text : String) (fault : Number.DecimalFault)

def usage : String :=
  "usage: card-preview <payload.json> [--width W] [--height H] [--config cfg.json] " ++
    "[--font font.ttf] [--out card.png] [--dump]"

def OptionFault.message : OptionFault → String
  | usage => Preview.usage
  | unknown option => "unknown option " ++ option ++ "\n" ++ Preview.usage
  | missingValue option => option ++ " requires a value"
  | badNumber text fault => "invalid number " ++ Text.quoted text ++ ": " ++ fault.message

namespace Options

def number (text : String) : Except OptionFault Float32 :=
  match Number.readFloat32 text with
  | .ok x => .ok x
  | .error fault => .error (.badNumber text fault)

/-- The options that take the argument after them. -/
def setter? : String → Option (Options → String → Except OptionFault Options)
  | "--width" => some fun o v => return { o with width := ← number v }
  | "--height" => some fun o v => return { o with height := some (← number v) }
  | "--config" => some fun o v => .ok { o with config := some v }
  | "--font" => some fun o v => .ok { o with font := some v }
  | "--out" => some fun o v => .ok { o with out := some v }
  | _ => none

/-- Reads the arguments from the left; of an option that is given twice the later one counts. -/
def scan (o : Options) : List String → Except OptionFault Options
  | [] => .ok o
  | arg :: rest =>
    match setter? arg, rest with
    | some _, [] => .error (.missingValue arg)
    | some set, value :: rest => do scan (← set o value) rest
    | none, rest =>
      if arg = "--dump" then scan { o with dump := true } rest
      else if arg = "-h" ∨ arg = "--help" then .error .usage
      else if "--".isPrefixOf arg then .error (.unknown arg)
      else scan { o with payload := arg } rest

/-- Without a dump there is always a picture. -/
def ofArguments (args : List String) : Except OptionFault Options := do
  let o ← scan {} args
  if o.payload = "" then .error .usage
  else if o.out = none ∧ !o.dump then .ok { o with out := some "card.png" }
  else .ok o

end Options

end ContentCard.Preview
