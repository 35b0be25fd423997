import ContentCard.Web.Host

/-!
Web addresses: reading an absolute one, and its normal text.

A scheme comes first.  The special schemes have a host, take a backslash for a slash and leave out
their usual port number.  `file` has a host that may be empty.  Any other address has a host only
behind two slashes, and without a slash its path is kept as one text.
-/

namespace ContentCard.Web

inductive SchemeKind
  | file
  | special
  | other
deriving DecidableEq, Repr

structure Credentials where
  user : List Char
  password : List Char
deriving DecidableEq, Repr

structure Authority where
  credentials : Credentials
  host : Host
  portNumber : Option Nat
deriving DecidableEq, Repr

inductive Path
  | plain (text : List Char)
  | segments (parts : List (List Char))
deriving DecidableEq, Repr

structure Address where
  scheme : List Char
  authority : Option Authority
  path : Path
  query : Option (List Char)
  fragment : Option (List Char)
deriving DecidableEq, Repr

namespace SchemeKind

def ofScheme (scheme : List Char) : SchemeKind :=
  let s := String.ofList scheme
  if s = "file" then file
  else if ["http", "https", "ws", "wss", "ftp"].contains s then special
  else other

def isSpecial : SchemeKind → Bool
  | other => false
  | _ => true

/-- A mark between the segments of a path. -/
def isSlash (kind : SchemeKind) (c : Char) : Bool := c == '/' || (c == '\\' && kind.isSpecial)

end SchemeKind

def usualPort? (scheme : List Char) : Option Nat :=
  [("http", 80), ("ws", 80), ("https", 443), ("wss", 443), ("ftp", 21)].lookup
    (String.ofList scheme)

namespace Address

/-! ## Paths -/

def isDriveLetter (cs : List Char) : Bool :=
  match cs with
  | [c, ':'] | [c, '|'] => c.isAlpha
  | _ => false

def isNormalDriveLetter (cs : List Char) : Bool := isDriveLetter cs && cs.getLast? == some ':'

/-- A segment that stands for the same or the upper level, with its points maybe escaped. -/
def dots (segment : List Char) : Nat :=
  let rec go : List Char → Option Nat
    | [] => some 0
    | '.' :: rest => (go rest).map (· + 1)
    | '%' :: '2' :: 'e' :: rest | '%' :: '2' :: 'E' :: rest => (go rest).map (· + 1)
    | _ => none
  match go segment with
  | some 1 => 1
  | some 2 => 2
  | _ => 0

/-- A drive letter of a file path is never taken back. -/
def shorten (kind : SchemeKind) (done : List (List Char)) : List (List Char) :=
  match done with
  | [drive] => if kind = .file && isNormalDriveLetter drive then done else []
  | _ => done.drop 1

/-- Adds segments to the reversed path so far; a level sign at the end leaves an empty segment. -/
def addSegments (kind : SchemeKind) (done : List (List Char)) : List (List Char) → List (List Char)
  | [] => done
  | segment :: rest =>
    let last := rest.isEmpty
    match dots segment with
    | 1 => addSegments kind (if last then [] :: done else done) rest
    | 2 =>
      let up := shorten kind done
      addSegments kind (if last then [] :: up else up) rest
    | _ =>
      let segment := match segment with
        | [c, '|'] => if kind = .file && done = [] && c.isAlpha then [c, ':'] else segment
        | segment => segment
      addSegments kind (segment :: done) rest

def splitSegments (kind : SchemeKind) : List Char → List (List Char)
  | [] => [[]]
  | c :: rest =>
    if kind.isSlash c then [] :: splitSegments kind rest
    else
      match splitSegments kind rest with
      | [] => [[c]]
      | s :: more => (c :: s) :: more

/-- The path of a text without its first slash. -/
def pathOf (kind : SchemeKind) (text : List Char) : List (List Char) :=
  let parts := (splitSegments kind text).map (encode pathSet)
  let path := (addSegments kind [] parts).reverse
  if kind = .file then
    match path.dropWhile (· = []) with
    | [] => [[]]
    | rest => rest
  else path

def withoutSlash (kind : SchemeKind) (text : List Char) : List Char :=
  match text with
  | c :: rest => if kind.isSlash c then rest else text
  | [] => []

/-! ## The parts of an address -/

/-- A text, and the query and the fragment behind it. -/
def splitTail (text : List Char) : List Char × Option (List Char) × Option (List Char) :=
  let front := text.takeWhile (· ≠ '#')
  let fragment := match text.dropWhile (· ≠ '#') with
    | [] => none
    | _ :: rest => some rest
  let query := match front.dropWhile (· ≠ '?') with
    | [] => none
    | _ :: rest => some rest
  (front.takeWhile (· ≠ '?'), query, fragment)

/-- The credentials in front of the last `@`, and what follows it. -/
def splitCredentials (text : List Char) : Option (List Char) × List Char :=
  let behind := (text.reverse.takeWhile (· ≠ '@')).reverse
  if behind.length = text.length then (none, text)
  else (some (text.take (text.length - behind.length - 1)), behind)

def credentials (text : List Char) : Credentials :=
  let user := text.takeWhile (· ≠ ':')
  let password := (text.dropWhile (· ≠ ':')).drop 1
  ⟨encode userSet user, encode userSet password⟩

def noCredentials : Credentials := ⟨[], []⟩

/-- A host, and what follows the colon behind it; colons in brackets belong to the host. -/
def splitPort (inBrackets : Bool) : List Char → List Char × Option (List Char)
  | [] => ([], none)
  | c :: rest =>
    if c = ':' && !inBrackets then ([], some rest)
    else
      let (host, digits) := splitPort (c = '[' || (inBrackets && c ≠ ']')) rest
      (c :: host, digits)

/-- The outer option fails; the inner one leaves out a missing or usual number. -/
def portNumber? (scheme : List Char) (digits : List Char) : Option (Option Nat) :=
  if digits = [] then some none
  else if digits.all Char.isDigit then
    let n := digits.foldl (fun n c => n * 10 + (c.toNat - 48)) 0
    if 65535 < n then none
    else if usualPort? scheme = some n then some none
    else some (some n)
  else none

/-- The authority in front of a path. -/
def authority? (scheme : List Char) (kind : SchemeKind) (text : List Char) : Option Authority := do
  let (user, rest) := splitCredentials text
  let (host, portText) := splitPort false rest
  if user = some [] && rest = [] && kind.isSpecial then none
  let creds := (user.map credentials).getD noCredentials
  if host = [] && (portText.isSome || kind.isSpecial || creds ≠ noCredentials) then none
  let host ← if kind.isSpecial then Host.parse? host else Host.parseOpaque? host
  let portNumber ← match portText with
    | none => some none
    | some digits => portNumber? scheme digits
  return ⟨creds, host, portNumber⟩

def finish (scheme : List Char) (kind : SchemeKind) (authority : Option Authority) (path : Path)
    (query fragment : Option (List Char)) : Address :=
  { scheme
    authority
    path
    query := query.map (encode (if kind.isSpecial then specialQuerySet else querySet))
    fragment := fragment.map (encode fragmentSet) }

/-- An authority up to a slash, and a path. -/
def withAuthority? (scheme : List Char) (kind : SchemeKind) (text : List Char)
    (query fragment : Option (List Char)) : Option Address := do
  let authorityText := text.takeWhile fun c => !kind.isSlash c
  let rest := text.dropWhile fun c => !kind.isSlash c
  let authority ← authority? scheme kind authorityText
  let path :=
    if rest = [] && !kind.isSpecial then [] else pathOf kind (withoutSlash kind rest)
  return finish scheme kind (some authority) (.segments path) query fragment

/-- The host of a file address; a drive letter in its place belongs to the path. -/
def file? (text : List Char) (query fragment : Option (List Char)) : Option Address := do
  let kind := SchemeKind.file
  let scheme := "file".toList
  let make (host : Host) (path : List (List Char)) : Address :=
    finish scheme kind (some ⟨noCredentials, host, none⟩) (.segments path) query fragment
  match text with
  | a :: b :: rest =>
    if kind.isSlash a && kind.isSlash b then
      let hostText := rest.takeWhile fun c => !kind.isSlash c
      if isDriveLetter hostText then return make (.name []) (pathOf kind rest)
      let path := pathOf kind (withoutSlash kind (rest.dropWhile fun c => !kind.isSlash c))
      if hostText = [] then return make (.name []) path
      let host ← Host.parse? hostText
      let driven := (path.head?.map isNormalDriveLetter).getD false
      return make (if host = .name "localhost".toList || driven then .name [] else host) path
    else return make (.name []) (pathOf kind (withoutSlash kind text))
  | text => return make (.name []) (pathOf kind (withoutSlash kind text))

/-- A scheme in lower case and the text behind its colon. -/
def splitScheme (text : List Char) : Option (List Char × List Char) :=
  let scheme := text.takeWhile (· ≠ ':')
  match scheme, text.dropWhile (· ≠ ':') with
  | first :: more, _ :: rest =>
    if first.isAlpha && more.all fun c => c.isAlphanum || c == '+' || c == '-' || c == '.' then
      some (scheme.map Char.toLower, rest)
    else none
  | _, _ => none

/-- Line breaks and tabs do not count, nor do spaces and controls at the ends. -/
def cleaned (text : List Char) : List Char :=
  let cut (cs : List Char) := cs.dropWhile fun c => c.toNat ≤ 0x20
  ((cut (cut text).reverse).reverse).filter fun c => c ≠ '\t' ∧ c ≠ '\n' ∧ c ≠ '\r'

def parse? (input : String) : Option Address := do
  let (scheme, rest) ← splitScheme (cleaned input.toList)
  let kind := SchemeKind.ofScheme scheme
  let (text, query, fragment) := splitTail rest
  match kind with
  | .file => file? text query fragment
  | .special => withAuthority? scheme kind (text.dropWhile kind.isSlash) query fragment
  | .other =>
    match text with
    | '/' :: '/' :: rest => withAuthority? scheme kind rest query fragment
    | '/' :: rest => return finish scheme kind none (.segments (pathOf kind rest)) query fragment
    | text => return finish scheme kind none (.plain (encode [] text)) query fragment

/-! ## Text -/

def credentialsText (c : Credentials) : String :=
  if c = noCredentials then ""
  else
    let password := if c.password = [] then "" else ":" ++ String.ofList c.password
    String.ofList c.user ++ password ++ "@"

def authorityText (a : Authority) : String :=
  let portText := match a.portNumber with
    | none => ""
    | some n => ":" ++ toString n
  "//" ++ credentialsText a.credentials ++ a.host.text ++ portText

def segmentsText (parts : List (List Char)) : String :=
  String.join (parts.map fun p => "/" ++ String.ofList p)

/-- Without a host, a path that starts with an empty segment is marked off by a point. -/
def pathText (hasHost : Bool) : Path → String
  | .plain text => String.ofList text
  | .segments ([] :: p :: rest) =>
    (if hasHost then "" else "/.") ++ segmentsText ([] :: p :: rest)
  | .segments parts => segmentsText parts

/-- The normal text of an address. -/
def text (a : Address) : String :=
  let tail (mark : String) : Option (List Char) → String
    | none => ""
    | some cs => mark ++ String.ofList cs
  String.ofList a.scheme ++ ":" ++ (a.authority.map authorityText).getD "" ++
    pathText a.authority.isSome a.path ++ tail "?" a.query ++ tail "#" a.fragment

/-- The local file of a `file` address without a host. -/
def filePath? (a : Address) : Option (List UInt8) :=
  match a.authority, a.path with
  | some ⟨_, .name [], _⟩, .segments parts =>
    some (parts.flatMap fun p => 0x2f :: decode p)
  | _, _ => none

end Address

end ContentCard.Web
