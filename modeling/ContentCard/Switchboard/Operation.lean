import ContentCard.Switchboard

/-!
Operations on a switchboard, and what is seen of them.

A handler that is handed a message may itself operate the switchboard before it comes back, and the
handlers that it reaches in that way may do so too.
-/

namespace ContentCard

inductive Switchboard.Operation (Handler : Type)
  | register (id : String) (handler : Handler)
  | unregister (id : String)
  | count
  /-- The handler that is called, if there is one, does what is given as its reaction. -/
  | dispatch (id text : String) (reaction : List (Switchboard.Operation Handler))

/-- What is seen of operations; the call of a handler and the answer to who handed over the message
are seen at their own times. -/
inductive Switchboard.Event (Handler : Type)
  | registered (id : String) (handler : Handler) (replaced : Option Handler)
  | unregistered (id : String) (present : Bool)
  | counted (size : Nat)
  | called (id : String) (handler : Handler) (message : Message)
  | answered (id : String) (result : Except DeliveryFault Unit)

namespace Switchboard

variable {Handler : Type}

mutual

/-- Does an operation; the events stand in the order of time. -/
def perform (s : Switchboard Handler) :
    Operation Handler → List (Event Handler) × Switchboard Handler
  | .register id handler => ([.registered id handler (s.find? id)], s.register id handler)
  | .unregister id => ([.unregistered id (s.isRegistered id)], s.erase id)
  | .count => ([.counted s.size], s)
  | .dispatch id text reaction =>
    let handle (handler : Handler) (message : Message) (s : Switchboard Handler) :=
      let (events, s) := performAll s reaction
      (Event.called id handler message :: events, s)
    match s.dispatch id text handle with
    | (.ok events, s) => (events ++ [.answered id (.ok ())], s)
    | (.error fault, s) => ([.answered id (.error fault)], s)

def performAll (s : Switchboard Handler) :
    List (Operation Handler) → List (Event Handler) × Switchboard Handler
  | [] => ([], s)
  | operation :: rest =>
    let (events, s) := s.perform operation
    let (more, s) := performAll s rest
    (events ++ more, s)

end

end Switchboard

end ContentCard
