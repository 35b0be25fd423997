import ContentCard.Card.Document
import ContentCard.Card.Paint
import ContentCard.Config.Reader
import ContentCard.ImageLoader
import ContentCard.Preview.Options
import ContentCard.Session

/-!
A card as a picture file, as JSON, or as both.

The card is rendered, its images are fetched, and it is rendered again.
-/

namespace ContentCard

/-- The addresses of the images of a tree, from the left. -/
def Visual.imageUrls : Visual → List Web.Address
  | container _ _ children => listUrls children
  | image _ content => content.url.toList
  | text .. | button .. | placeholder .. => []
where
  listUrls : List Visual → List Web.Address
    | [] => []
    | v :: vs => v.imageUrls ++ listUrls vs

namespace Preview

/-! ## Faults -/

inductive FileFault
  | missing
  | denied
  | directory
  | notDirectory
  | notText
  | other (text : String)
deriving DecidableEq, Repr

def FileFault.message : FileFault → String
  | missing => "No such file or directory (os error 2)"
  | denied => "Permission denied (os error 13)"
  | directory => "Is a directory (os error 21)"
  | notDirectory => "Not a directory (os error 20)"
  | notText => "stream did not contain valid UTF-8"
  | other text => text

inductive Fault
  | options (fault : OptionFault)
  | payload (path : String) (fault : FileFault)
  | template (fault : TemplateFault)
  | configFile (fault : FileFault)
  | config (fault : Json.Fault)
  | fontFile (path : String) (fault : FileFault)
  | font (fault : Font.Fault)
  | save (fault : FileFault)

/-- What is wrong with a JSON text, by category. -/
def jsonMessage (fault : Json.Fault) : String :=
  match fault with
  | .eof => "it ends early"
  | .syntaxError => "it is not JSON"
  | .data => "it has an unexpected value"

def Fault.message : Fault → String
  | options fault => fault.message
  | payload path fault => "failed to read " ++ path ++ ": " ++ fault.message
  | template (.json fault) => "payload is not valid JSON: " ++ jsonMessage fault
  | template (.notAnObject found) => notAnObjectMessage found
  | configFile fault => "failed to read config: " ++ fault.message
  | config fault => "invalid config: " ++ jsonMessage fault
  | fontFile path fault => "failed to read font " ++ path ++ ": " ++ fault.message
  | font fault => fault.message
  | save fault => "failed to decode image: " ++ fault.message

/-- A fault as it is shown when the program ends. -/
def Fault.report (fault : Fault) : String := "Error: " ++ Text.quoted fault.message

/-! ## The host -/

abbrev FileResult := Except FileFault (List UInt8)

/-- What the program does outside itself. -/
structure Host (m : Type → Type) where
  read : String → m FileResult
  write : String → List UInt8 → m (Except FileFault Unit)
  download : String → m (Option (List UInt8))
  print : String → m Unit

abbrev Run (m : Type → Type) := ExceptT Fault m

variable {m : Type → Type} [Monad m]

def failWith (fault : ε → Fault) (result : Except ε α) : Run m α :=
  ExceptT.mk (pure (result.mapError fault))

def Host.readText (h : Host m) (path : String) (fault : FileFault → Fault) : Run m String := do
  let bytes ← failWith fault (← h.read path)
  match String.fromUTF8? ⟨bytes.toArray⟩ with
  | some text => return text
  | none => throw (fault .notText)

def Host.fetch (h : Host m) (url : Web.Address) : m FetchResult := do
  match ImagePlace.ofAddress url with
  | .file path => return .ofBytes (← h.read path).toOption
  | .web url => return .ofBytes (← h.download url)
  | .nowhere => return none

/-! ## Steps -/

def readTemplate (h : Host m) (o : Options) : Run m Template := do
  let text ← h.readText o.payload (.payload o.payload)
  failWith .template (Template.readString text)

def readConfig (h : Host m) (o : Options) : Run m Config := do
  match o.config with
  | none => return {}
  | some path => failWith .config (Config.readString (← h.readText path .configFile))

def readFont (h : Host m) (o : Options) : Run m (Option Font) := do
  match o.font with
  | none => return none
  | some path =>
    let bytes ← failWith (.fontFile path) (← h.read path)
    return some (← failWith .font (Font.read bytes))

def session (template : Template) (config : Config) (font : Option Font) : Session Unit :=
  let s : Session Unit := .new template config
  match font with
  | some font => { s with measure := font.measure }
  | none => s

def room (o : Options) : Available := ⟨o.width, o.height⟩

/-- The images that a session shows, before any of them is there. -/
def imageUrls (s : Session Unit) (o : Options) : List Web.Address :=
  (s.card (fun _ => .pending) (room o)).tree.imageUrls

/-- A length in whole pixels, at least one. -/
def pixels (x : Float32) : Nat := Number.toUInt32 (Number.max (Number.ceil x) 1)

def summary (card : Card) : String :=
  "laid out " ++ toString card.layout.nodeCount ++ " nodes in " ++
    Number.plainText card.layout.frame.width ++ "x" ++ Number.plainText card.layout.frame.height ++
    "\n"

/-- The card on white. -/
def picture (o : Options) (card : Card) (p : PaintBox) : Picture :=
  let height := o.height.getD card.layout.frame.bottom
  let canvas := Canvas.blank (pixels o.width) (pixels height)
  (card.paint p (canvas.clear .white)).picture

def save (h : Host m) (path : String) (picture : Picture) : Run m Unit := do
  failWith .save (← h.write path (Png.encode picture))
  h.print ("rendered to " ++ path ++ "\n")

/-- The program with its arguments. -/
def run (h : Host m) (args : List String) : Run m Unit := do
  let o ← failWith .options (Options.ofArguments args)
  let template ← readTemplate h o
  let config ← readConfig h o
  let font ← readFont h o
  let s := session template config font
  let loader ← (ImageLoader.awaitAll h.fetch (imageUrls s o) {} : m ImageLoader)
  let card := s.card loader.state (room o)
  h.print (summary card)
  if o.dump then h.print (card.document.indentedText ++ "\n")
  match o.out with
  | some path => save h path (picture o card ⟨font, loader.state⟩)
  | none => return

end Preview

end ContentCard
