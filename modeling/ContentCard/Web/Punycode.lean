/-!
Punycode: a label's characters outside ASCII, as letters and digits behind its ASCII characters.

The characters are written in the order of their code points.  Each one is the number of
insertions that were possible since the last one, in digits to the base 36 whose weights adapt to
the differences seen so far.
-/

namespace ContentCard.Web.Punycode

def digitChar (d : Nat) : Char := if d < 26 then Char.ofNat (97 + d) else Char.ofNat (22 + d)

def digit? (c : Char) : Option Nat :=
  if c.isLower then some (c.toNat - 97)
  else if c.isUpper then some (c.toNat - 65)
  else if c.isDigit then some (c.toNat - 22)
  else none

/-- The least digit at a weight that ends a number. -/
def threshold (weight bias : Nat) : Nat :=
  if weight ≤ bias then 1 else if bias + 26 ≤ weight then 26 else weight - bias

theorem threshold_pos (weight bias : Nat) : 1 ≤ threshold weight bias := by
  unfold threshold
  repeat' split
  all_goals omega

def settle (delta weight : Nat) : Nat :=
  if 455 < delta then settle (delta / 35) (weight + 36)
  else weight + 36 * delta / (delta + 38)
termination_by delta
decreasing_by omega

/-- The bias after a difference; the first one is damped. -/
def adapt (delta count : Nat) (first : Bool) : Nat :=
  let d := if first then delta / 700 else delta / 2
  settle (d + d / count) 0

/-- The digits of a difference, lowest first. -/
def digits (bias weight n : Nat) : List Char :=
  let t := threshold weight bias
  if n < t then [digitChar n]
  else digitChar (t + (n - t) % (36 - t)) :: digits bias (weight + 36) ((n - t) / (36 - t))
termination_by n
decreasing_by
  have hpos := threshold_pos weight bias
  exact Nat.lt_of_le_of_lt (Nat.div_le_self _ _) (by omega)

/-- What has been written, the insertions skipped, the bias and the characters handled. -/
structure Progress where
  out : List Char
  delta : Nat
  bias : Nat
  handled : Nat

/-- Passes one character of the label while `point` is written. -/
def pass (plain point : Nat) (p : Progress) (c : Char) : Progress :=
  if c.toNat < point then { p with delta := p.delta + 1 }
  else if c.toNat = point then
    { out := p.out ++ digits p.bias 36 p.delta
      delta := 0
      bias := adapt p.delta (p.handled + 1) (p.handled == plain)
      handled := p.handled + 1 }
  else p

/-- Writes the code points in order, each with a pass over the label. -/
def writePoints (label : List Char) (plain : Nat) (next : Nat) (p : Progress) :
    List Nat → Progress
  | [] => p
  | point :: rest =>
    let skipped := { p with delta := p.delta + (point - next) * (p.handled + 1) }
    let passed := label.foldl (pass plain point) skipped
    writePoints label plain (point + 1) { passed with delta := passed.delta + 1 } rest

def encode (label : List Char) : List Char :=
  let ascii := label.filter fun c => c.toNat < 128
  let points := ((label.filter fun c => 128 ≤ c.toNat).map Char.toNat).mergeSort.eraseDups
  let start := if ascii = [] then [] else ascii ++ ['-']
  (writePoints label ascii.length 128 ⟨start, 0, 72, ascii.length⟩ points).out

/-- Reads one difference; the value, and what follows it. -/
def readDelta (bias weight factor total : Nat) : List Char → Option (Nat × List Char)
  | [] => none
  | c :: rest =>
    match digit? c with
    | none => none
    | some d =>
      let total := total + d * factor
      let t := threshold weight bias
      if d < t then some (total, rest)
      else readDelta bias (weight + 36) (factor * (36 - t)) total rest

theorem readDelta_length {bias weight factor total : Nat} {cs rest : List Char} {n : Nat}
    (h : readDelta bias weight factor total cs = some (n, rest)) : rest.length < cs.length := by
  induction cs generalizing weight factor total with
  | nil => simp [readDelta] at h
  | cons c cs ih =>
    rw [readDelta] at h
    split at h
    · simp at h
    · simp only at h
      split at h
      · simp only [Option.some.injEq, Prod.mk.injEq] at h
        simp [← h.2]
      · have := ih h
        simp only [List.length_cons]
        omega

/-- Inserts the characters that the differences stand for. -/
def readPoints (label : List Char) (point index bias : Nat) (text : List Char) :
    Option (List Char) :=
  if text.isEmpty then some label
  else
    match h : readDelta bias 36 1 0 text with
    | none => none
    | some (delta, rest) =>
      let count := label.length + 1
      let code := point + (index + delta) / count
      let place := (index + delta) % count
      if code.isValidChar then
        let longer := label.take place ++ Char.ofNat code :: label.drop place
        readPoints longer code (place + 1) (adapt delta count (index == 0)) rest
      else none
termination_by text.length
decreasing_by exact readDelta_length h

/-- What stands in front of the last hyphen is plain. -/
def decode (text : List Char) : Option (List Char) :=
  let tail := (text.reverse.takeWhile (· ≠ '-')).reverse
  let plain := text.take (text.length - tail.length - 1)
  readPoints plain 128 0 72 tail

end ContentCard.Web.Punycode
