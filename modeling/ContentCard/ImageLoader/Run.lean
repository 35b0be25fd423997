import ContentCard.ImageLoader

/-!
Fetches that run beside those who ask for images.

A fetch changes what it shares with others step by step: its handle gets the state, its result goes
into the cache, it leaves the table of fetches under way, and it is noted.  A request looks into the
cache first and into that table afterwards.  Anything may happen between two such steps.
-/

namespace ContentCard

/-! ## Fetches -/

/-- The next step of a fetch. -/
inductive FetchStep
  /-- The image comes, and the handle gets its state. -/
  | answer
  | store
  | forget
  | notify
  | done
deriving DecidableEq, Repr

structure Fetch where
  url : String
  /-- The number of its handle. -/
  slot : Nat
  next : FetchStep := .answer
  /-- What has come of it, once that is known. -/
  result : FetchResult := none

/-- A fetch holds its handle from its answer to its end. -/
def Fetch.holds (f : Fetch) (slot : Nat) : Bool :=
  f.slot == slot && (f.next == .store || f.next == .forget || f.next == .notify)

/-- A fetch after its next step. -/
def Fetch.stepped (f : Fetch) (result : FetchResult) : Fetch :=
  match f.next with
  | .answer => { f with next := .store, result }
  | .store => { f with next := .forget }
  | .forget => { f with next := .notify }
  | .notify | .done => { f with next := .done }

/-- What a handle stands for.  Those who asked hold it until they let it go. -/
structure ImageSlot where
  state : ImageState
  isHeld : Bool := true

/-! ## A loader and its fetches -/

/-- All fetches that ever began stand in their order, and so do the handles. -/
structure LoaderRun where
  cache : ImageCache := {}
  /-- The addresses of the fetches under way, with their handles. -/
  inFlight : List (String × Nat) := []
  slots : List ImageSlot := []
  fetches : List Fetch := []
  notices : List String := []

namespace LoaderRun

def start (capacity : Nat) : LoaderRun := { cache := { capacity } }

/-- What the loader itself holds of all this. -/
def loader (s : LoaderRun) : ImageLoader where
  cache := s.cache
  inFlight := s.inFlight.map Prod.fst
  notices := s.notices

/-- A new handle. -/
def hand (s : LoaderRun) (state : ImageState) : Nat × LoaderRun :=
  (s.slots.length, { s with slots := s.slots ++ [{ state }] })

def state (s : LoaderRun) (slot : Nat) : ImageState := (s.slots[slot]?.map (·.state)).getD .pending

def isHeld (s : LoaderRun) (slot : Nat) : Bool := s.slots[slot]?.any (·.isHeld)

/-! ### Requests -/

/-- A fetch begins. -/
def begin (s : LoaderRun) (url : String) : Nat × LoaderRun :=
  let slot := s.slots.length
  (slot,
    { s with
      slots := s.slots ++ [{ state := .pending }]
      inFlight := (url, slot) :: s.inFlight.filter (·.1 != url)
      fetches := s.fetches ++ [{ url, slot }] })

/-- Takes the handle of the fetch that is under way, if someone still holds it. -/
def join (s : LoaderRun) (url : String) : Nat × LoaderRun :=
  match s.inFlight.lookup url with
  | some slot =>
    if s.isHeld slot || s.fetches.any (·.holds slot) then
      (slot, { s with slots := s.slots.modify slot fun x => { x with isHeld := true } })
    else s.begin url
  | none => s.begin url

/-- Those who asked let a handle go. -/
def drop (s : LoaderRun) (slot : Nat) : LoaderRun :=
  { s with slots := s.slots.modify slot fun x => { x with isHeld := false } }

/-! ### Steps of fetches -/

def forget (s : LoaderRun) (f : Fetch) : LoaderRun :=
  { s with inFlight := s.inFlight.filter (· != (f.url, f.slot)) }

/-- What the next step of a fetch does to what it shares with others. -/
def effect (s : LoaderRun) (f : Fetch) (result : FetchResult) : LoaderRun :=
  match f.next with
  | .answer =>
    { s with slots := s.slots.modify f.slot fun x => { x with state := .ofResult result } }
  | .store => { s with cache := s.cache.insert f.url f.result }
  | .forget => s.forget f
  | .notify => { s with notices := s.notices ++ [f.url] }
  | .done => s

/-- The next step of a fetch, with the image if it comes in this step.  A fetch whose handle nobody
holds gives up. -/
def advance (s : LoaderRun) (n : Nat) (result : FetchResult) : LoaderRun :=
  match s.fetches[n]? with
  | none => s
  | some f =>
    if f.next = .answer ∧ ¬s.isHeld f.slot then
      { s.forget f with fetches := s.fetches.set n { f with next := .done } }
    else { s.effect f result with fetches := s.fetches.set n (f.stepped result) }

/-- The fetches that take a step, one after the other. -/
abbrev Schedule := List (Nat × FetchResult)

def advanceAll (s : LoaderRun) (steps : Schedule) : LoaderRun :=
  steps.foldl (fun s step => s.advance step.1 step.2) s

/-! ### Turns -/

/-- A request, and what goes on beside it. -/
structure Turn where
  url : String
  /-- The steps between its two looks. -/
  between : Schedule := []
  /-- The steps while its handle is waited for. -/
  after : Schedule := []
  /-- The handles that are let go afterwards. -/
  dropped : List Nat := []

def request (s : LoaderRun) (t : Turn) : Nat × LoaderRun :=
  match s.cache.find? t.url with
  | some known => s.hand (.ofResult known)
  | none => (s.advanceAll t.between).join t.url

/-- The loader when the waiting ends. -/
def waited (s : LoaderRun) (t : Turn) : LoaderRun := (s.request t).2.advanceAll t.after

/-- The state of the handle when the waiting ends. -/
def answer (s : LoaderRun) (t : Turn) : ImageState := (s.waited t).state (s.request t).1

def perform (s : LoaderRun) (t : Turn) : LoaderRun := t.dropped.foldl drop (s.waited t)

def performAll (s : LoaderRun) (turns : List Turn) : LoaderRun := turns.foldl perform s

end LoaderRun

end ContentCard
