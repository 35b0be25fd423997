import ContentCard.Json.Record

/-!
Messages from scripts to the handlers of their sessions.

Every session has at most one handler.  A handler may change the switchboard while it handles a
message; the message goes to the one that was registered when it arrived.
-/

namespace ContentCard

open Json

structure Message where
  name : String
  body : Value := .null

namespace Message

/-- A message is nested in one container. -/
def bodyDepth : Nat := maxDepth - 1

def fields : List (RecordField Message) :=
  [⟨"name", true, fun d => d.text.map fun name m => { m with name }⟩,
    ⟨"body", false, fun d => (d.value bodyDepth).map fun body m => { m with body }⟩]

def read (text : String) : Except Fault Message :=
  readWith (Draft.record fields { name := "" }) text.toUTF8.toList

end Message

/-- Why a message is not delivered. -/
inductive DeliveryFault
  | malformed (fault : Fault)
  | unknownSession (id : String)
deriving DecidableEq, Repr

/-- The complaint about a session without a handler. -/
def unknownSessionMessage (id : String) : String :=
  "no handler registered for message session `" ++ id ++ "`"

/-- Handlers by the identifiers of their sessions, no identifier twice. -/
structure Switchboard (Handler : Type) where
  entries : List (String × Handler)
  ids_nodup : (entries.map Prod.fst).Nodup

namespace Switchboard

def empty : Switchboard Handler := ⟨[], .nil⟩

def find? (s : Switchboard Handler) (id : String) : Option Handler := s.entries.lookup id

def isRegistered (s : Switchboard Handler) (id : String) : Bool := (s.find? id).isSome

def size (s : Switchboard Handler) : Nat := s.entries.length

def isEmpty (s : Switchboard Handler) : Bool := s.entries.isEmpty

def erase (s : Switchboard Handler) (id : String) : Switchboard Handler where
  entries := s.entries.filter (·.1 != id)
  ids_nodup := s.ids_nodup.sublist ((List.filter_sublist).map _)

theorem not_mem_erase (s : Switchboard Handler) (id : String) :
    id ∉ (s.erase id).entries.map Prod.fst := by
  simp [erase]

/-- The handler takes the place of any other one of its session. -/
def register (s : Switchboard Handler) (id : String) (handler : Handler) : Switchboard Handler where
  entries := (id, handler) :: (s.erase id).entries
  ids_nodup := List.nodup_cons.mpr ⟨s.not_mem_erase id, (s.erase id).ids_nodup⟩

/-- The handler that a message goes to. -/
def route (s : Switchboard Handler) (id text : String) : Except DeliveryFault (Handler × Message) :=
  match Message.read text with
  | .error fault => .error (.malformed fault)
  | .ok message =>
    match s.find? id with
    | some handler => .ok (handler, message)
    | none => .error (.unknownSession id)

/-- Delivers a message; `handle` says what the handler reports, and what becomes of the
switchboard. -/
def dispatch (s : Switchboard Handler) (id text : String)
    (handle : Handler → Message → Switchboard Handler → ρ × Switchboard Handler) :
    Except DeliveryFault ρ × Switchboard Handler :=
  match s.route id text with
  | .error fault => (.error fault, s)
  | .ok (handler, message) =>
    let (report, s) := handle handler message s
    (.ok report, s)

end Switchboard

end ContentCard
