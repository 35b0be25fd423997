import ContentCard.Json.Value

/-!
The tokens of JSON text.

A token keeps two readings.  The strict one is the value it stands for.  The loose one only says
where the token ends: it is what a member that nobody asked for is held to, so a lone surrogate or
a number that is too large does no harm there.
-/

namespace ContentCard.Json

/-- Why a text is refused: it ends early, it is no JSON, or it is JSON of the wrong shape. -/
inductive Fault
  | eof
  | syntaxError
  | data
deriving DecidableEq, Repr

inductive Token
  | openBrace
  | closeBrace
  | openBracket
  | closeBracket
  | colon
  | comma
  | null
  | bool (b : Bool)
  | number (strict : Except Fault Number) (loose : Except Fault Unit)
  | string (strict : Except Fault String) (loose : Except Fault Unit)
  /-- No token starts here, or a word breaks off. -/
  | bad (fault : Fault)

abbrev Bytes := List UInt8

def isSpace (b : UInt8) : Bool := b == 0x20 || b == 0x0a || b == 0x0d || b == 0x09

def isDigit (b : UInt8) : Bool := 0x30 ≤ b && b ≤ 0x39

def digit (b : UInt8) : Nat := b.toNat - 0x30

/-! ## Numbers -/

/-- `mantissa · 10 ^ exponent`, scaled by one power of ten at a time; `none` if it is too large. -/
def scaleByTen (f : Float) (exponent : Int) : Option Float :=
  if exponent.natAbs ≤ 308 then
    let power := Float.ofScientific 1 false exponent.natAbs
    if 0 ≤ exponent then
      let y := f * power
      if y.isInf then none else some y
    else some (f / power)
  else if f == 0 then some f
  else if 0 ≤ exponent then none
  else scaleByTen (f / 1e308) (exponent + 308)
termination_by exponent.natAbs
decreasing_by omega

def signedFloat (negative : Bool) (f : Float) : Float := if negative then -f else f

/-- Appends a digit while the result fits 64 bits. -/
def append? (significand : UInt64) (b : UInt8) : Option UInt64 :=
  let n := significand.toNat * 10 + digit b
  if n < UInt64.size then some (UInt64.ofNat n) else none

/-- The leading digits that fit 64 bits, and how many digits are left over. -/
def leading (significand : UInt64) : Bytes → UInt64 × Nat
  | [] => (significand, 0)
  | b :: rest =>
    match append? significand b with
    | some n => leading n rest
    | none => (significand, rest.length + 1)

/-- The value of a number from its digits; the digits that do not fit 64 bits are dropped. -/
def numberValue (negative : Bool) (whole : Bytes) (fraction : Option Bytes)
    (exponent : Option (Bool × Bytes)) : Option Number :=
  let (significand, dropped) := leading 0 whole
  match fraction, exponent, dropped with
  | none, none, 0 =>
    if !negative then some (.natural significand)
    else if significand = 0 ∨ 0x8000000000000000 < significand.toNat then
      some (.real (-significand.toFloat))
    else some (.negative (Int64.ofInt (-(significand.toNat : Int))))
  | _, _, _ =>
    let digits := fraction.getD []
    let (significand, left) := leading significand digits
    let start : Int := (dropped : Int) - ((digits.length : Int) - left)
    let scaled : Option Float :=
      match exponent with
      | none => scaleByTen significand.toFloat start
      | some (below, ds) =>
        let e := ds.foldl (fun n b => n * 10 + digit b) 0
        if e < 0x80000000 then
          scaleByTen significand.toFloat (if below then start - e else start + e)
        else if significand ≠ 0 ∧ !below then none
        else some 0
    scaled.map fun f => .real (signedFloat negative f)

/-- What stands at the start of `rest` where a digit is needed. -/
def missingDigit (rest : Bytes) : Except Fault α × Except Fault Unit :=
  (.error (if rest.isEmpty then .eof else .syntaxError), .error .syntaxError)

def exponentToken (negative : Bool) (whole : Bytes) (fraction : Option Bytes) (text : Bytes) :
    Token × Bytes :=
  let (below, text) := match text with
    | 0x2b :: rest => (false, rest)
    | 0x2d :: rest => (true, rest)
    | rest => (false, rest)
  let digits := text.takeWhile isDigit
  let rest := text.dropWhile isDigit
  if digits.isEmpty then
    let (strict, loose) := missingDigit rest
    (.number strict loose, rest)
  else
    match numberValue negative whole fraction (some (below, digits)) with
    | some n => (.number (.ok n) (.ok ()), rest)
    | none => (.number (.error .syntaxError) (.ok ()), rest)

def afterFraction (negative : Bool) (whole : Bytes) (fraction : Option Bytes) (text : Bytes) :
    Token × Bytes :=
  match text with
  | 0x65 :: rest => exponentToken negative whole fraction rest
  | 0x45 :: rest => exponentToken negative whole fraction rest
  | rest =>
    match numberValue negative whole fraction none with
    | some n => (.number (.ok n) (.ok ()), rest)
    | none => (.number (.error .syntaxError) (.ok ()), rest)

/-- The number token at the start of a text, its sign already taken. -/
def numberToken (negative : Bool) (text : Bytes) : Token × Bytes :=
  let whole := text.takeWhile isDigit
  let rest := text.dropWhile isDigit
  if whole.isEmpty then
    let (strict, loose) := missingDigit rest
    (.number strict loose, rest)
  else if whole.head? = some 0x30 ∧ 1 < whole.length then
    (.number (.error .syntaxError) (.error .syntaxError), rest)
  else
    match rest with
    | 0x2e :: tail =>
      let fraction := tail.takeWhile isDigit
      let rest := tail.dropWhile isDigit
      if fraction.isEmpty then
        let (strict, loose) := missingDigit rest
        (.number strict loose, rest)
      else afterFraction negative whole (some fraction) rest
    | rest => afterFraction negative whole none rest

/-! ## Strings -/

/-- A byte of a string, or a 16-bit unit written as an escape. -/
inductive Piece
  | byte (b : UInt8)
  | unit (n : Nat)
deriving DecidableEq, Repr

def hexDigit? (b : UInt8) : Option Nat :=
  if isDigit b then some (digit b)
  else if 0x61 ≤ b ∧ b ≤ 0x66 then some (b.toNat - 0x57)
  else if 0x41 ≤ b ∧ b ≤ 0x46 then some (b.toNat - 0x37)
  else none

def hexUnit? (a b c d : UInt8) : Option Nat := do
  let a ← hexDigit? a
  let b ← hexDigit? b
  let c ← hexDigit? c
  let d ← hexDigit? d
  return ((a * 16 + b) * 16 + c) * 16 + d

/-- The byte that a one-letter escape stands for. -/
def escaped? (b : UInt8) : Option UInt8 :=
  if b = 0x22 ∨ b = 0x5c ∨ b = 0x2f then some b
  else if b = 0x62 then some 0x08
  else if b = 0x66 then some 0x0c
  else if b = 0x6e then some 0x0a
  else if b = 0x72 then some 0x0d
  else if b = 0x74 then some 0x09
  else none

/-- The pieces of a string up to its closing quote, and what follows that quote. -/
def pieces : Bytes → List Piece × Except Fault Bytes
  | [] => ([], .error .eof)
  | 0x22 :: rest => ([], .ok rest)
  | [0x5c] => ([], .error .eof)
  | 0x5c :: 0x75 :: a :: b :: c :: d :: rest =>
    match hexUnit? a b c d with
    | some n =>
      let (ps, r) := pieces rest
      (.unit n :: ps, r)
    | none => ([], .error .syntaxError)
  | 0x5c :: 0x75 :: _ => ([], .error .eof)
  | 0x5c :: e :: rest =>
    match escaped? e with
    | some b =>
      let (ps, r) := pieces rest
      (.byte b :: ps, r)
    | none => ([], .error .syntaxError)
  | b :: rest =>
    if b < 0x20 then ([], .error .syntaxError)
    else
      let (ps, r) := pieces rest
      (.byte b :: ps, r)

def isLeading (n : Nat) : Bool := 0xd800 ≤ n && n ≤ 0xdbff

def isTrailing (n : Nat) : Bool := 0xdc00 ≤ n && n ≤ 0xdfff

def codePoint (n : Nat) : Bytes := (String.singleton (Char.ofNat n)).toUTF8.toList

/-- The bytes of a string.  Two surrogates in a row make one character; `last` is the fault of a
text whose pieces end at the list's end. -/
def bytesOf (last : Fault) : List Piece → Except Fault Bytes
  | [] => .ok []
  | .byte b :: rest => (bytesOf last rest).map (b :: ·)
  | .unit n :: rest =>
    if isTrailing n then .error .syntaxError
    else if isLeading n then
      match rest with
      | .unit m :: rest =>
        if isTrailing m then
          (bytesOf last rest).map (codePoint ((n - 0xd800) * 1024 + (m - 0xdc00) + 0x10000) ++ ·)
        else .error .syntaxError
      | .byte _ :: _ => .error .syntaxError
      | [] => .error last
    else (bytesOf last rest).map (codePoint n ++ ·)

def utf8? (bytes : Bytes) : Option String := String.fromUTF8? ⟨bytes.toArray⟩

/-- The string token behind an opening quote. -/
def stringToken (text : Bytes) : Token × Bytes :=
  match pieces text with
  | (ps, .error f) => (.string ((bytesOf f ps).bind fun _ => .error f) (.error f), [])
  | (ps, .ok rest) =>
    let strict := (bytesOf .syntaxError ps).bind fun bytes =>
      match utf8? bytes with
      | some s => .ok s
      | none => .error .syntaxError
    (.string strict (.ok ()), rest)

/-! ## Words and marks -/

/-- The rest of a word whose first letter was seen. -/
def word (token : Token) : Bytes → Bytes → Token × Bytes
  | [], rest => (token, rest)
  | _ :: _, [] => (.bad .eof, [])
  | b :: more, c :: rest => if b = c then word token more rest else (.bad .syntaxError, rest)

/-- The token that starts with a byte. -/
def token (first : UInt8) (rest : Bytes) : Token × Bytes :=
  if first = 0x7b then (.openBrace, rest)
  else if first = 0x7d then (.closeBrace, rest)
  else if first = 0x5b then (.openBracket, rest)
  else if first = 0x5d then (.closeBracket, rest)
  else if first = 0x3a then (.colon, rest)
  else if first = 0x2c then (.comma, rest)
  else if first = 0x6e then word .null [0x75, 0x6c, 0x6c] rest
  else if first = 0x74 then word (.bool true) [0x72, 0x75, 0x65] rest
  else if first = 0x66 then word (.bool false) [0x61, 0x6c, 0x73, 0x65] rest
  else if first = 0x22 then stringToken rest
  else if first = 0x2d then numberToken true rest
  else if isDigit first then numberToken false (first :: rest)
  else (.bad .syntaxError, rest)

/-- Every token takes a byte, so as many steps as there are bytes read the whole text. -/
def tokensWithin : Nat → Bytes → List Token
  | 0, _ => []
  | n + 1, text =>
    match text.dropWhile isSpace with
    | [] => []
    | b :: rest =>
      let (t, rest) := token b rest
      t :: tokensWithin n rest

def tokens (text : Bytes) : List Token := tokensWithin text.length text

end ContentCard.Json
