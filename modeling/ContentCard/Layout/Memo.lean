import ContentCard.Layout.Item

/-!
Requests for the size of an item, and what an item remembers of its answers.

An item keeps its last final answer and one size for each kind of request.  An answer is given
again for a request that knows the same sides, or knows them as they came out, in the same room;
the parent's size is not compared.  It also keeps that the layout has halted at it: whatever comes
afterwards does not count.
-/

namespace ContentCard.Layout

structure Request where
  /-- The sides that are settled. -/
  known : Sides Known
  /-- The parent's inner size, to which shares refer. -/
  parent : Sides Known
  space : Sides Space
  /-- The item's own size counts. -/
  inherent : Bool
  /-- The children are put into their places. -/
  final : Bool

structure Answer where
  known : Sides Known
  space : Sides Space
  size : Sides Float32

namespace Answer

def sameKnown (asked answered : Known) (size : Float32) : Bool :=
  asked == answered || asked == some size

def fits (a : Answer) (r : Request) : Bool :=
  sameKnown r.known.width a.known.width a.size.width &&
    sameKnown r.known.height a.known.height a.size.height &&
    (r.known.width.isSome || a.space.width.isClose r.space.width) &&
    (r.known.height.isSome || a.space.height.isClose r.space.height)

end Answer

/-- The kind of a request for a size: which sides are known, and which are as small as possible. -/
def Request.slot (r : Request) : Nat :=
  let least (s : Space) : Nat := if s == .minContent then 1 else 0
  match r.known.width, r.known.height with
  | some _, some _ => 0
  | some _, none => 1 + least r.space.height
  | none, some _ => 3 + least r.space.width
  | none, none => 5 + 2 * least r.space.width + least r.space.height

def slots : Nat := 9

structure Cache where
  final : Option Answer
  sizes : List (Option Answer)
  /-- The layout has come to a point that it does not get past. -/
  halted : Bool := false

namespace Cache

def empty : Cache := { final := none, sizes := List.replicate slots none }

def find? (c : Cache) (r : Request) : Option (Sides Float32) :=
  if r.final then (c.final.filter (·.fits r)).map Answer.size
  else (c.sizes.findSome? fun a => a.filter (·.fits r)).map Answer.size

def store (c : Cache) (r : Request) (size : Sides Float32) : Cache :=
  let a : Answer := ⟨r.known, r.space, size⟩
  if r.final then { c with final := some a } else { c with sizes := c.sizes.set r.slot (some a) }

end Cache

/-- The place of an item in its parent, before rounding. -/
structure Place where
  x : Float32
  y : Float32
  size : Sides Float32
deriving BEq, Repr

def Place.origin : Place := ⟨0, 0, ⟨0, 0⟩⟩

/-- What an item and its children remember. -/
inductive Memo
  | mk (cache : Cache) (place : Place) (children : List Memo)

instance : Inhabited Memo := ⟨.mk .empty .origin []⟩

namespace Memo

def fresh : Memo := .mk .empty .origin []

def cache : Memo → Cache
  | mk c _ _ => c

def place : Memo → Place
  | mk _ p _ => p

def children : Memo → List Memo
  | mk _ _ ms => ms

def putAt (m : Memo) (place : Place) : Memo := mk m.cache place m.children

def halt (m : Memo) : Memo := mk { m.cache with halted := true } m.place m.children

mutual

/-- The layout has halted at the item or inside it. -/
def isHalted : Memo → Bool
  | mk c _ ms => c.halted || areHalted ms

def areHalted : List Memo → Bool
  | [] => false
  | m :: rest => m.isHalted || areHalted rest

end

end Memo

/-- An item that can be asked for its size; what it remembers goes in and out. -/
abbrev Sizer := Request → Memo → Sides Float32 × Memo

/-- Answers from memory where that is possible, and remembers what is computed. -/
def Sizer.remembering (compute : Sizer) : Sizer := fun r m =>
  match m.cache.find? r with
  | some size => (size, m)
  | none =>
    let (size, m) := compute r m
    (size, .mk (m.cache.store r size) m.place m.children)

end ContentCard.Layout
