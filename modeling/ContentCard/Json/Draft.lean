import ContentCard.Json.Token

/-!
The tree of a JSON text before anyone asks what it should hold.

A draft is built from the tokens by one fold over a stack of open containers.  Where the text goes
wrong the draft says so in that place, and the open containers end there.  A reader that walks a
draft in the order of the text so meets its own complaints and those of the text in that order.
-/

namespace ContentCard.Json

structure Key where
  strict : Except Fault String
  loose : Except Fault Unit

/-- Why a container ends without its closing mark. -/
inductive Stop
  | fault (fault : Fault)
  /-- A key was needed; the token found there, or the end of the text. -/
  | key (found : Option Token)

def Stop.cause : Stop → Fault
  | fault f => f
  | key none => .eof
  | key (some _) => .syntaxError

inductive Draft
  | null
  | bool (b : Bool)
  | number (strict : Except Fault Number) (loose : Except Fault Unit)
  | string (strict : Except Fault String) (loose : Except Fault Unit)
  | array (items : List Draft) (stop : Option Stop)
  | object (members : List (Key × Draft)) (stop : Option Stop)
  /-- Something that is no value. -/
  | bad (fault : Fault)
  /-- The text ends where a value should stand. -/
  | missing

namespace Draft

/-- An open container; what it holds so far stands in reverse. -/
inductive Frame
  | items (done : List Draft)
  | member (done : List (Key × Draft)) (key : Key)

inductive State
  | value (frames : List Frame)
  | firstItem (frames : List Frame)
  | afterItem (frames : List Frame) (done : List Draft)
  | firstKey (frames : List Frame)
  | nextKey (frames : List Frame) (done : List (Key × Draft))
  | colon (frames : List Frame) (done : List (Key × Draft)) (key : Key)
  | afterMember (frames : List Frame) (done : List (Key × Draft))
  | finished (draft : Draft)
  | trailing (draft : Draft)
  | stopped (draft : Draft)

/-- Puts a whole value into the innermost container. -/
def push (draft : Draft) : List Frame → State
  | [] => .finished draft
  | .items done :: rest => .afterItem rest (draft :: done)
  | .member done key :: rest => .afterMember rest ((key, draft) :: done)

/-- Puts a value that ends the text into the innermost container, and so outwards. -/
def close (draft : Draft) (fault : Fault) : List Frame → Draft
  | [] => draft
  | .items done :: rest => close (array (draft :: done).reverse (some (.fault fault))) fault rest
  | .member done key :: rest =>
    close (object ((key, draft) :: done).reverse (some (.fault fault))) fault rest

/-- The draft of a text without a value where one is needed. -/
def cutValue (found : Option Token) (frames : List Frame) : Draft :=
  match found with
  | none => close missing .eof frames
  | some (.bad f) => close (bad f) f frames
  | some _ => close (bad .syntaxError) .syntaxError frames

/-- The draft of a text that goes wrong here; `found` is the token, or `none` at the end. -/
def cut (found : Option Token) : State → Draft
  | .value frames => cutValue found frames
  | .firstItem frames => cutValue found (.items [] :: frames)
  | .afterItem frames done =>
    let fault := if found.isSome then .syntaxError else .eof
    close (array done.reverse (some (.fault fault))) fault frames
  | .firstKey frames =>
    let stop := Stop.key found
    close (object [] (some stop)) stop.cause frames
  | .nextKey frames done =>
    let stop := Stop.key found
    close (object done.reverse (some stop)) stop.cause frames
  | .colon frames done key =>
    match found with
    | none => close missing .eof (.member done key :: frames)
    | some _ => close (bad .syntaxError) .syntaxError (.member done key :: frames)
  | .afterMember frames done =>
    let fault := if found.isSome then .syntaxError else .eof
    close (object done.reverse (some (.fault fault))) fault frames
  | .finished draft | .trailing draft | .stopped draft => draft

/-- Goes on behind a number or string, unless the text cannot be read past it. -/
def scalar (draft : Draft) (loose : Except Fault Unit) (frames : List Frame) : State :=
  match loose with
  | .ok () => push draft frames
  | .error f => .stopped (close draft f frames)

/-- A token in a place where a value must stand. -/
def openValue (frames : List Frame) (token : Token) : State :=
  match token with
  | .null => push null frames
  | .bool b => push (bool b) frames
  | .number strict loose => scalar (number strict loose) loose frames
  | .string strict loose => scalar (string strict loose) loose frames
  | .openBracket => .firstItem frames
  | .openBrace => .firstKey frames
  | t => .stopped (cutValue (some t) frames)

def openKey (frames : List Frame) (done : List (Key × Draft)) (token : Token) : State :=
  match token with
  | .string strict loose =>
    match loose with
    | .ok () => .colon frames done ⟨strict, loose⟩
    | .error f => .stopped (close (bad f) f (.member done ⟨strict, loose⟩ :: frames))
  | t => .stopped (cut (some t) (.nextKey frames done))

def step (state : State) (token : Token) : State :=
  match state, token with
  | .value frames, t => openValue frames t
  | .firstItem frames, .closeBracket => push (array [] none) frames
  | .firstItem frames, t => openValue (.items [] :: frames) t
  | .afterItem frames done, .comma => .value (.items done :: frames)
  | .afterItem frames done, .closeBracket => push (array done.reverse none) frames
  | .firstKey frames, .closeBrace => push (object [] none) frames
  | .firstKey frames, t => openKey frames [] t
  | .nextKey frames done, t => openKey frames done t
  | .colon frames done key, .colon => .value (.member done key :: frames)
  | .afterMember frames done, .comma => .nextKey frames done
  | .afterMember frames done, .closeBrace => push (object done.reverse none) frames
  | .finished draft, _ => .trailing draft
  | .trailing draft, _ => .trailing draft
  | .stopped draft, _ => .stopped draft
  | state, t => .stopped (cut (some t) state)

/-- The draft of a text, and whether more text stands behind it. -/
def ofTokens (ts : List Token) : Draft × Bool :=
  match ts.foldl step (.value []) with
  | .trailing draft => (draft, true)
  | state => (cut none state, false)

end Draft

end ContentCard.Json
