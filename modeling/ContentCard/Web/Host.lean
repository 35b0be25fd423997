import ContentCard.Web.Domain

/-!
Hosts of web addresses: domain names, and addresses of four or sixteen bytes.

A name whose last label is a number has to be a four-byte address, in one to four parts with
decimal, octal or hexadecimal digits.  Sixteen-byte addresses stand in brackets and are written
with their longest run of zeros left out.
-/

namespace ContentCard.Web

inductive Host
  | name (text : List Char)
  | four (address : Nat)
  | sixteen (groups : List Nat)
deriving DecidableEq, Repr

namespace Host

/-! ## Four bytes -/

def digitValue? (radix : Nat) (c : Char) : Option Nat :=
  (hexValue? c).filter (· < radix)

def digitsValue? (radix : Nat) (cs : List Char) : Option Nat := do
  let ds ← cs.mapM (digitValue? radix)
  return ds.foldl (fun n d => n * radix + d) 0

/-- A part of a four-byte address; a bare prefix is zero. -/
def part? (cs : List Char) : Option Nat :=
  match cs with
  | [] => none
  | '0' :: 'x' :: rest | '0' :: 'X' :: rest => digitsValue? 16 rest
  | '0' :: d :: rest => digitsValue? 8 (d :: rest)
  | cs => digitsValue? 10 cs

/-- The labels without the empty one behind a last point. -/
def numberLabels (name : List Char) : List (List Char) :=
  match (Domain.labels name).reverse with
  | [] :: rest => rest.reverse
  | _ => Domain.labels name

def endsInNumber (name : List Char) : Bool :=
  match (numberLabels name).getLast? with
  | none => false
  | some last => (last ≠ [] && last.all Char.isDigit) || (part? last).isSome

def four? (name : List Char) : Option Nat := do
  let parts ← (numberLabels name).mapM part?
  let last ← parts.getLast?
  let front := parts.dropLast
  if 4 < parts.length || front.any (255 < ·) || Nat.pow 256 (4 - front.length) ≤ last then none
  else
    let high := front.foldl (fun n p => n * 256 + p) 0
    some (high * Nat.pow 256 (4 - front.length) + last)

def fourText (address : Nat) : String :=
  ".".intercalate ([24, 16, 8, 0].map fun k => toString ((address >>> k) % 256))

/-! ## Sixteen bytes -/

/-- The four-byte address at the end of a longer one: exactly four plain decimal parts. -/
def tail? (cs : List Char) : Option (List Nat) := do
  let parts ← (cs.splitOn '.').mapM fun p =>
    if p = [] || 3 < p.length || (p.head? = some '0' && p ≠ ['0']) then none
    else (digitsValue? 10 p).filter (· ≤ 255)
  match parts with
  | [a, b, c, d] => some [a * 256 + b, c * 256 + d]
  | _ => none

def group? (cs : List Char) : Option Nat :=
  if cs = [] || 4 < cs.length then none else digitsValue? 16 cs

/-- Groups between colons; only the last one may be a four-byte address. -/
def groups? : List (List Char) → Option (List Nat)
  | [] => some []
  | [last] => if last.contains '.' then tail? last else (group? last).map ([·])
  | g :: rest => do
    let n ← group? g
    let ns ← groups? rest
    return n :: ns

def side? (cs : List Char) : Option (List Nat) :=
  if cs = [] then some [] else groups? (cs.splitOn ':')

/-- The text in front of the first double colon and the text behind it. -/
def splitGap : List Char → Option (List Char × List Char)
  | [] => none
  | ':' :: ':' :: rest => some ([], rest)
  | c :: rest => (splitGap rest).map fun (a, b) => (c :: a, b)

def sixteen? (cs : List Char) : Option (List Nat) :=
  match splitGap cs with
  | none => (side? cs).filter (·.length = 8)
  | some (before, after) => do
    let a ← side? before
    let b ← side? after
    if before.contains '.' || 8 ≤ a.length + b.length then none
    else some (a ++ List.replicate (8 - a.length - b.length) 0 ++ b)

def zeroRun (groups : List Nat) (start : Nat) : Nat :=
  ((groups.drop start).takeWhile (· = 0)).length

/-- Start and length of the first longest run of zeros, if it has more than one. -/
def gap? (groups : List Nat) : Option (Nat × Nat) :=
  (List.range groups.length).foldl (fun best start =>
    let n := zeroRun groups start
    let longest := (best.map Prod.snd).getD 1
    if longest < n then some (start, n) else best) none

def groupText (n : Nat) : String := String.ofList (Nat.toDigits 16 n)

def sixteenText (groups : List Nat) : String :=
  let side (gs : List Nat) := ":".intercalate (gs.map groupText)
  match gap? groups with
  | none => side groups
  | some (start, n) => side (groups.take start) ++ "::" ++ side (groups.drop (start + n))

/-! ## Both -/

def text : Host → String
  | name cs => String.ofList cs
  | four address => fourText address
  | sixteen groups => "[" ++ sixteenText groups ++ "]"

def bracketed? (cs : List Char) : Option Host :=
  if cs.getLast? = some ']' then (sixteen? cs.dropLast).map sixteen else none

/-- The host of an address whose scheme has hosts by name. -/
def parse? (cs : List Char) : Option Host :=
  match cs with
  | '[' :: rest => bracketed? rest
  | cs => do
    let name ← Domain.ofBytes? (decode cs)
    if name = [] then none
    else if endsInNumber name then (four? name).map four
    else some (.name name)

/-- The host of any other address: text that is only kept apart from the marks around it. -/
def parseOpaque? (cs : List Char) : Option Host :=
  match cs with
  | '[' :: rest => bracketed? rest
  | cs =>
    if cs.any fun c => c.toNat = 0 || "\t\n\r #/:<>?@[\\]^|".toList.contains c then none
    else some (.name (encode [] cs))

end Host

end ContentCard.Web
