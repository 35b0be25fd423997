import ContentCard.Picture

/-!
Results of fetches, kept by their addresses.  The oldest result makes room for a new one.
-/

namespace ContentCard

/-- How a fetch ends: with a picture, or without one. -/
abbrev FetchResult := Option Picture

def ImageState.ofResult : FetchResult → ImageState
  | some picture => .loaded picture
  | none => .failed

@[simp] theorem ImageState.isSettled_ofResult (r : FetchResult) :
    (ofResult r).isSettled = true := by
  cases r <;> rfl

/-- The entries stand in the order in which their addresses came in. -/
structure ImageCache where
  entries : List (String × FetchResult) := []
  capacity : Nat := 256
deriving Inhabited

namespace ImageCache

def urls (c : ImageCache) : List String := c.entries.map Prod.fst

def find? (c : ImageCache) (url : String) : Option FetchResult := c.entries.lookup url

def size (c : ImageCache) : Nat := c.entries.length

/-- A known address keeps its place and gets the new result. -/
def replace (c : ImageCache) (url : String) (result : FetchResult) : ImageCache :=
  { c with entries := c.entries.map fun (u, r) => (u, if u = url then result else r) }

/-- A new address comes last, and the first ones go until the cache fits its capacity. -/
def append (c : ImageCache) (url : String) (result : FetchResult) : ImageCache :=
  let entries := c.entries ++ [(url, result)]
  { c with entries := entries.drop (entries.length - c.capacity) }

def insert (c : ImageCache) (url : String) (result : FetchResult) : ImageCache :=
  if c.capacity = 0 then c
  else if (c.find? url).isSome then c.replace url result
  else c.append url result

@[simp] theorem capacity_insert (c : ImageCache) (url : String) (r : FetchResult) :
    (c.insert url r).capacity = c.capacity := by
  unfold insert; split
  · rfl
  split <;> rfl

end ImageCache

end ContentCard
