import ContentCard.Config
import ContentCard.Json.Record
import ContentCard.Json.Document

/-!
Configurations as JSON text: every field of a configuration may be left out, no field of a colour
may be.
-/

namespace ContentCard

open Json

namespace Color

def fields : List (RecordField Color) :=
  [⟨"r", true, fun d => d.float32.map fun x c => { c with r := x }⟩,
    ⟨"g", true, fun d => d.float32.map fun x c => { c with g := x }⟩,
    ⟨"b", true, fun d => d.float32.map fun x c => { c with b := x }⟩,
    ⟨"a", true, fun d => d.float32.map fun x c => { c with a := x }⟩]

def ofDraft (d : Draft) : Except Fault Color := d.record fields black

def document (c : Color) : Document :=
  .object [("r", .single c.r), ("g", .single c.g), ("b", .single c.b), ("a", .single c.a)]

end Color

namespace ContentScale

/-- The exact words of a configuration. -/
def ofName? : String → Option ContentScale
  | "fit" => some fit
  | "fill" => some fill
  | "crop" => some crop
  | "none" => some unscaled
  | _ => none

end ContentScale

namespace FillPrecedence

def ofName? : String → Option FillPrecedence
  | "fill" => some fill
  | "explicit" => some explicit
  | _ => none

end FillPrecedence

namespace ButtonDefaults

def fields : List (RecordField ButtonDefaults) :=
  [⟨"textColor", false, fun d => (Color.ofDraft d).map fun x b => { b with textColor := x }⟩,
    ⟨"background", false, fun d => (Color.ofDraft d).map fun x b => { b with background := x }⟩,
    ⟨"borderRadius", false, fun d => d.float32.map fun x b => { b with borderRadius := x }⟩,
    ⟨"bottomMargin", false, fun d => d.float32.map fun x b => { b with bottomMargin := x }⟩,
    ⟨"paddingHorizontal", false, fun d =>
      d.float32.map fun x b => { b with paddingHorizontal := x }⟩,
    ⟨"paddingVertical", false, fun d => d.float32.map fun x b => { b with paddingVertical := x }⟩]

def document (b : ButtonDefaults) : Document :=
  .object
    [("textColor", b.textColor.document), ("background", b.background.document),
      ("borderRadius", .single b.borderRadius), ("bottomMargin", .single b.bottomMargin),
      ("paddingHorizontal", .single b.paddingHorizontal),
      ("paddingVertical", .single b.paddingVertical)]

end ButtonDefaults

namespace Config

def fields : List (RecordField Config) :=
  [⟨"fontSize", false, fun d => d.float32.map fun x c => { c with fontSize := x }⟩,
    ⟨"imageDefaultHeight", false, fun d =>
      d.float32.map fun x c => { c with imageDefaultHeight := x }⟩,
    ⟨"contentScale", false, fun d =>
      (d.choice ContentScale.ofName?).map fun x c => { c with contentScale := x }⟩,
    ⟨"fillPrecedence", false, fun d =>
      (d.choice FillPrecedence.ofName?).map fun x c => { c with fillPrecedence := x }⟩,
    ⟨"lineHeightExtra", false, fun d => d.float32.map fun x c => { c with lineHeightExtra := x }⟩,
    ⟨"charWidthFactor", false, fun d => d.float32.map fun x c => { c with charWidthFactor := x }⟩,
    ⟨"button", false, fun d =>
      (d.record ButtonDefaults.fields {}).map fun x c => { c with button := x }⟩]

def ofDraft (d : Draft) : Except Fault Config := d.record fields {}

def readString (text : String) : Except Fault Config := readWith ofDraft text.toUTF8.toList

def document (c : Config) : Document :=
  .object
    [("fontSize", .single c.fontSize), ("imageDefaultHeight", .single c.imageDefaultHeight),
      ("contentScale", .string c.contentScale.name),
      ("fillPrecedence", .string c.fillPrecedence.name),
      ("lineHeightExtra", .single c.lineHeightExtra),
      ("charWidthFactor", .single c.charWidthFactor), ("button", c.button.document)]

end Config

end ContentCard
