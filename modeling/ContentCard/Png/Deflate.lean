/-!
Compressed data: blocks that are stored as they are, or that are coded as literals and references
to earlier output.  Writing stores; reading takes all three kinds of blocks.
-/

namespace ContentCard.Png.Deflate

/-! ## Writing -/

/-- The most bytes that one stored block holds. -/
def blockSize : Nat := 65535

def littleWord (n : Nat) : List UInt8 := [UInt8.ofNat n, UInt8.ofNat (n / 256)]

def storedBlock (isLast : Bool) (bytes : List UInt8) : List UInt8 :=
  (if isLast then 1 else 0) :: littleWord bytes.length ++ littleWord (65535 - bytes.length) ++ bytes

def stored (bytes : List UInt8) : List UInt8 :=
  if blockSize < bytes.length then
    storedBlock false (bytes.take blockSize) ++ stored (bytes.drop blockSize)
  else storedBlock true bytes
termination_by bytes.length
decreasing_by simp [blockSize] at *; omega

/-! ## Bits -/

/-- Reads from bytes, the low bit of each first; the state is the number of bits taken. -/
abbrev Bits := ReaderT (Array UInt8) (StateT Nat Option)

def bit : Bits Nat := do
  let taken ← get
  match (← read)[taken / 8]? with
  | some b =>
    set (taken + 1)
    return (b.toNat >>> (taken % 8)) % 2
  | none => failure

/-- A number, low bit first. -/
def bits : Nat → Bits Nat
  | 0 => return 0
  | n + 1 => do
    let low ← bit
    return low + 2 * (← bits n)

/-- Skips the rest of a byte. -/
def align : Bits Unit := modify fun taken => (taken + 7) / 8 * 8

/-! ## Codes -/

/-- The longest code of a symbol. -/
def maxLength : Nat := 15

/-- A canonical code: how many symbols have a code of each length, from length 1 on, and the
symbols in the order of their codes. -/
structure Code where
  counts : List Nat
  symbols : Array Nat

namespace Code

/-- The share of all codes of the greatest length that codes of the given lengths take. -/
def room (lengths : List Nat) : Nat :=
  (lengths.map fun n => if n = 0 then 0 else Nat.pow 2 (maxLength - n)).foldl (· + ·) 0

/-- The code whose symbols have the given lengths, if there is room for it; a length of zero means
that a symbol has no code. -/
def ofLengths? (lengths : List Nat) : Option Code :=
  let symbolsOf (n : Nat) : List Nat := (List.range lengths.length).filter (lengths[·]? == some n)
  let used := (List.range maxLength).map (· + 1)
  if room lengths ≤ Nat.pow 2 maxLength then
    some ⟨used.map fun n => lengths.count n, (used.flatMap symbolsOf).toArray⟩
  else none

/-- Of the codes of one length, `first` is the lowest and `index` the place of its symbol. -/
def symbolFrom (c : Code) (code first index : Nat) : List Nat → Bits Nat
  | [] => failure
  | count :: counts => do
    let code := code + (← bit)
    if code < first + count then (c.symbols[index + (code - first)]? : Option Nat)
    else c.symbolFrom (2 * code) (2 * (first + count)) (index + count) counts

def symbol (c : Code) : Bits Nat := c.symbolFrom 0 0 0 c.counts

end Code

/-! ## Blocks -/

/-- The least lengths of references, by their symbols from 257 on, with the numbers of bits that
tell how much longer they are. -/
def lengthSteps : List (Nat × Nat) :=
  [(3, 0), (4, 0), (5, 0), (6, 0), (7, 0), (8, 0), (9, 0), (10, 0), (11, 1), (13, 1), (15, 1),
    (17, 1), (19, 2), (23, 2), (27, 2), (31, 2), (35, 3), (43, 3), (51, 3), (59, 3), (67, 4),
    (83, 4), (99, 4), (115, 4), (131, 5), (163, 5), (195, 5), (227, 5), (258, 0)]

def distanceSteps : List (Nat × Nat) :=
  [(1, 0), (2, 0), (3, 0), (4, 0), (5, 1), (7, 1), (9, 2), (13, 2), (17, 3), (25, 3), (33, 4),
    (49, 4), (65, 5), (97, 5), (129, 6), (193, 6), (257, 7), (385, 7), (513, 8), (769, 8),
    (1025, 9), (1537, 9), (2049, 10), (3073, 10), (4097, 11), (6145, 11), (8193, 12), (12289, 12),
    (16385, 13), (24577, 13)]

def stepped (steps : List (Nat × Nat)) (i : Nat) : Bits Nat := do
  match steps[i]? with
  | some (least, extra) => return least + (← bits extra)
  | none => failure

/-- Repeats output from `distance` bytes back; it may run into what it writes. -/
def copy (out : Array UInt8) (distance length : Nat) : Array UInt8 :=
  Nat.repeat (fun out => out.push (out.getD (out.size - distance) 0)) length out

/-- The symbols of a block; each takes at least one bit. -/
def symbols (literals distances : Code) : Nat → Array UInt8 → Bits (Array UInt8)
  | 0, _ => failure
  | fuel + 1, out => do
    let s ← literals.symbol
    if s < 256 then symbols literals distances fuel (out.push (UInt8.ofNat s))
    else if s = 256 then return out
    else
      let length ← stepped lengthSteps (s - 257)
      let distance ← stepped distanceSteps (← distances.symbol)
      if distance ≤ out.size then symbols literals distances fuel (copy out distance length)
      else failure

def fixedLiteralLengths : List Nat :=
  List.replicate 144 8 ++ List.replicate 112 9 ++ List.replicate 24 7 ++ List.replicate 8 8

def fixedDistanceLengths : List Nat := List.replicate 30 5

/-- The order in which the lengths of the lengths' own code are written. -/
def lengthOrder : List Nat := [16, 17, 18, 0, 8, 7, 9, 6, 10, 5, 11, 4, 12, 3, 13, 2, 14, 1, 15]

/-- Code lengths, the last one first, until there are `count`; runs are written as repetitions. -/
def codeLengths (c : Code) (count : Nat) : Nat → List Nat → Bits (List Nat)
  | 0, _ => failure
  | fuel + 1, done => do
    if done.length = count then return done.reverse
    else if count < done.length then failure
    else
      match ← c.symbol, done with
      | 16, last :: _ =>
        codeLengths c count fuel (List.replicate (3 + (← bits 2)) last ++ done)
      | 16, [] => failure
      | 17, _ => codeLengths c count fuel (List.replicate (3 + (← bits 3)) 0 ++ done)
      | 18, _ => codeLengths c count fuel (List.replicate (11 + (← bits 7)) 0 ++ done)
      | n, _ => codeLengths c count fuel (n :: done)

/-- The two codes that stand at the head of a block. -/
def writtenCodes : Bits (Code × Code) := do
  let literals := 257 + (← bits 5)
  let distances := 1 + (← bits 5)
  let given := 4 + (← bits 4)
  let lengths ← (lengthOrder.take given).mapM fun i => return (i, ← bits 3)
  let code ← Code.ofLengths? ((List.range 19).map fun i => (lengths.lookup i).getD 0)
  let count := literals + distances
  let all ← codeLengths code count (count + 1) []
  return (← Code.ofLengths? (all.take literals), ← Code.ofLengths? (all.drop literals))

def storedBytes (out : Array UInt8) : Bits (Array UInt8) := do
  align
  let length ← bits 16
  let check ← bits 16
  let start := (← get) / 8
  let bytes ← read
  if length + check = 65535 ∧ start + length ≤ bytes.size then
    set ((start + length) * 8)
    return out ++ bytes.extract start (start + length)
  else failure

def blocks (fuel : Nat) : Nat → Array UInt8 → Bits (Array UInt8)
  | 0, _ => failure
  | n + 1, out => do
    let isLast := (← bit) = 1
    let out ← match ← bits 2 with
      | 0 => storedBytes out
      | 1 =>
        symbols (← Code.ofLengths? fixedLiteralLengths) (← Code.ofLengths? fixedDistanceLengths)
          fuel out
      | 2 =>
        let (literals, distances) ← writtenCodes
        symbols literals distances fuel out
      | _ => failure
    if isLast then return out else blocks fuel n out

/-- The data of a sequence of blocks. -/
def inflate (bytes : Array UInt8) : Option (Array UInt8) :=
  let fuel := 8 * bytes.size + 1
  (((blocks fuel fuel #[]).run bytes).run 0).map Prod.fst

end ContentCard.Png.Deflate
