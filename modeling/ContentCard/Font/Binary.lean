/-!
Big-endian numbers in the tables of a font file.
-/

namespace ContentCard.Font

/-- The bytes of a table. -/
abbrev Table := Array UInt8

namespace Table

def byte? (t : Table) (i : Nat) : Option Nat := t[i]?.map UInt8.toNat

def word? (t : Table) (i : Nat) : Option Nat := do
  return (← t.byte? i) * 256 + (← t.byte? (i + 1))

def long? (t : Table) (i : Nat) : Option Nat := do
  return (← t.word? i) * 65536 + (← t.word? (i + 2))

/-- The signed number with the given low bits. -/
def signed (bits : Nat) (n : Nat) : Int :=
  if n < Nat.pow 2 (bits - 1) then n else n - Nat.pow 2 bits

def int16? (t : Table) (i : Nat) : Option Int := (t.word? i).map (signed 16)

def int8? (t : Table) (i : Nat) : Option Int := (t.byte? i).map (signed 8)

/-- The numbers of two bytes each from a place on, if all are there. -/
def words? (t : Table) (start count : Nat) : Option (Array Nat) :=
  if start + 2 * count ≤ t.size then
    some (Array.ofFn (n := count) fun i => (t.word? (start + 2 * i)).getD 0)
  else none

/-- A part of the table, if it lies inside. -/
def part? (t : Table) (start length : Nat) : Option Table :=
  if start + length ≤ t.size then some (t.extract start (start + length)) else none

end Table

end ContentCard.Font
