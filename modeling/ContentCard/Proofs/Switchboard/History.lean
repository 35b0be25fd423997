import ContentCard.Switchboard.Operation
import Mathlib.Data.Finset.Card

/-!
# What a switchboard answers, from what was seen before

The handler of a session is the one that was registered last and not unregistered since.  This can
be read off the events that have been seen, and it settles what every operation leads to, also the
operations of handlers that are still at work on a message.
-/

namespace ContentCard.Switchboard

variable {Handler : Type}

/-! ## 1. Handlers from the events -/

/-- What an event says about the handler of a session. -/
def Event.holding? (id : String) : Event Handler → Option (Option Handler)
  | .registered other handler _ => if other = id then some (some handler) else none
  | .unregistered other _ => if other = id then some none else none
  | .counted _ | .called .. | .answered .. => none

/-- The handler that was registered last for a session, if it was not unregistered since. -/
def holder (history : List (Event Handler)) (id : String) : Option Handler :=
  (history.filterMap (Event.holding? id)).getLast?.join

def Event.registeredId? : Event Handler → Option String
  | .registered id _ _ => some id
  | _ => none

/-- The sessions that have a handler. -/
def sessions (history : List (Event Handler)) : Finset String :=
  (history.filterMap Event.registeredId?).toFinset.filter fun id => (holder history id).isSome

theorem holder_append_singleton (history : List (Event Handler)) (event : Event Handler)
    (id : String) :
    holder (history ++ [event]) id = (event.holding? id).getD (holder history id) := by
  simp only [holder, List.getLast?_filterMap, List.reverse_append, List.reverse_singleton,
    List.singleton_append, List.findSome?_cons]
  cases event.holding? id <;> rfl

theorem mem_sessions_iff {history : List (Event Handler)} {id : String} :
    id ∈ sessions history ↔ (holder history id).isSome := by
  rw [sessions, Finset.mem_filter, List.mem_toFinset, and_iff_right_iff_imp, List.mem_filterMap]
  intro h
  -- the last word on the session is a registration
  obtain ⟨handler, hh⟩ := Option.isSome_iff_exists.mp h
  have hlast := List.mem_of_getLast? (Option.join_eq_some_iff.mp hh)
  obtain ⟨event, hevent, hholding⟩ := List.mem_filterMap.mp hlast
  refine ⟨event, hevent, ?_⟩
  cases event with
  | registered other handler replaced =>
    simp only [Event.holding?, Option.ite_none_right_eq_some] at hholding
    rw [Event.registeredId?, hholding.1]
  | unregistered other present =>
    simp [Event.holding?] at hholding
  | counted | called | answered => cases hholding

/-! ## 2. What operations are to lead to -/

mutual

/-- The events of an operation, from those that were seen before it. -/
def due (history : List (Event Handler)) : Operation Handler → List (Event Handler)
  | .register id handler => [.registered id handler (holder history id)]
  | .unregister id => [.unregistered id (holder history id).isSome]
  | .count => [.counted (sessions history).card]
  | .dispatch id text reaction =>
    match Message.read text, holder history id with
    | .error fault, _ => [.answered id (.error (.malformed fault))]
    | .ok _, none => [.answered id (.error (.unknownSession id))]
    | .ok message, some handler =>
      .called id handler message ::
        dueAll (history ++ [.called id handler message]) reaction ++ [.answered id (.ok ())]

def dueAll (history : List (Event Handler)) : List (Operation Handler) → List (Event Handler)
  | [] => []
  | operation :: rest =>
    due history operation ++ dueAll (history ++ due history operation) rest

end

/-! ## 3. The switchboard keeps to it -/

theorem lookup_cons_ite (key other : String) (handler : Handler) (rest : List (String × Handler)) :
    ((key, handler) :: rest).lookup other =
      if other = key then some handler else rest.lookup other := by
  rw [List.lookup_cons]
  by_cases h : other = key
  · rw [if_pos h, beq_iff_eq.mpr h]
  · rw [if_neg h, beq_eq_false_iff_ne.mpr h]

section

variable (s : Switchboard Handler) (id other : String)

theorem find?_erase :
    (s.erase id).find? other = if id = other then none else s.find? other := by
  show (s.entries.filter (·.1 != id)).lookup other =
    if id = other then none else s.entries.lookup other
  -- a lookup passes over the entries of other identifiers, erased or not
  induction s.entries with
  | nil => exact (ite_self none).symm
  | cons entry rest ih =>
    obtain ⟨key, handler⟩ := entry
    by_cases hk : key = id
    · rw [List.filter_cons_of_neg (by simp [hk]), ih, lookup_cons_ite, hk]
      by_cases ho : id = other
      · rw [if_pos ho, if_pos ho]
      · rw [if_neg ho, if_neg ho, if_neg (Ne.symm ho)]
    · rw [List.filter_cons_of_pos (by simp [hk]), lookup_cons_ite, lookup_cons_ite, ih]
      by_cases ho : id = other
      · rw [if_pos ho, if_pos ho, if_neg (ho ▸ Ne.symm hk)]
      · rw [if_neg ho, if_neg ho]

theorem find?_register (handler : Handler) :
    (s.register id handler).find? other = if id = other then some handler else s.find? other := by
  show ((id, handler) :: (s.erase id).entries).lookup other = _
  rw [lookup_cons_ite]
  by_cases ho : id = other
  · rw [if_pos ho, if_pos ho.symm]
  · rw [if_neg ho, if_neg (Ne.symm ho)]
    exact (s.find?_erase id other).trans (if_neg ho)

theorem isSome_find?_iff : (s.find? id).isSome ↔ id ∈ s.entries.map Prod.fst := by
  rw [find?, List.lookup_isSome_iff, List.mem_map]
  simp only [beq_iff_eq, @eq_comm _ id]

end

/-- The switchboard has the handlers that can be read off the events. -/
def Reflects (history : List (Event Handler)) (s : Switchboard Handler) : Prop :=
  ∀ id, s.find? id = holder history id

theorem reflects_empty : Reflects ([] : List (Event Handler)) empty := fun _ => rfl

namespace Reflects

variable {history : List (Event Handler)} {s : Switchboard Handler}

theorem size_eq (h : Reflects history s) : s.size = (sessions history).card := by
  have hs : sessions history = (s.entries.map Prod.fst).toFinset := by
    ext id
    rw [mem_sessions_iff, ← h id, isSome_find?_iff, List.mem_toFinset]
  rw [hs, List.toFinset_card_of_nodup s.ids_nodup, List.length_map, size]

theorem register (h : Reflects history s) (id : String) (handler : Handler)
    (replaced : Option Handler) :
    Reflects (history ++ [.registered id handler replaced]) (s.register id handler) := by
  intro other
  rw [find?_register, holder_append_singleton, Event.holding?, h other]
  split <;> rfl

theorem erase (h : Reflects history s) (id : String) (present : Bool) :
    Reflects (history ++ [.unregistered id present]) (s.erase id) := by
  intro other
  rw [find?_erase, holder_append_singleton, Event.holding?, h other]
  split <;> rfl

/-- An event that says nothing about handlers. -/
theorem append (h : Reflects history s) (event : Event Handler)
    (he : ∀ id, event.holding? id = none) : Reflects (history ++ [event]) s := by
  intro id
  rw [holder_append_singleton, he, h id]
  rfl

end Reflects

/-- The message is read first; then the handler of that moment is called, and only its reaction
changes the switchboard. -/
theorem perform_dispatch (s : Switchboard Handler) (id text : String)
    (reaction : List (Operation Handler)) :
    s.perform (.dispatch id text reaction) =
      match Message.read text, s.find? id with
      | .error fault, _ => ([.answered id (.error (.malformed fault))], s)
      | .ok _, none => ([.answered id (.error (.unknownSession id))], s)
      | .ok message, some handler =>
        (.called id handler message :: (s.performAll reaction).1 ++ [.answered id (.ok ())],
          (s.performAll reaction).2) := by
  rw [perform, dispatch, route]
  cases Message.read text with
  | error fault => rfl
  | ok message =>
    cases s.find? id with
    | none => rfl
    | some handler => rfl

mutual

/-- One operation, with all that handlers do meanwhile. -/
theorem perform_eq_due {history : List (Event Handler)} {s : Switchboard Handler}
    (h : Reflects history s) (operation : Operation Handler) :
    (s.perform operation).1 = due history operation ∧
      Reflects (history ++ due history operation) (s.perform operation).2 := by
  cases operation with
  | register id handler =>
    rw [perform, due, h id]
    exact ⟨rfl, h.register id handler _⟩
  | unregister id =>
    rw [perform, due, isRegistered, h id]
    exact ⟨rfl, h.erase id _⟩
  | count =>
    rw [perform, due, h.size_eq]
    exact ⟨rfl, h.append _ fun _ => rfl⟩
  | dispatch id text reaction =>
    rw [perform_dispatch, due, h id]
    cases Message.read text with
    | error fault => exact ⟨rfl, h.append _ fun _ => rfl⟩
    | ok message =>
      cases holder history id with
      | none => exact ⟨rfl, h.append _ fun _ => rfl⟩
      | some handler =>
        -- the reaction is a smaller list of operations, done while the message is handled
        have hcalled := h.append (.called id handler message) fun _ => rfl
        obtain ⟨hevents, hreflects⟩ := performAll_eq_dueAll hcalled reaction
        refine ⟨by rw [hevents], ?_⟩
        have hanswered := hreflects.append (.answered id (.ok ())) fun _ => rfl
        simp only [List.append_assoc, List.cons_append] at hanswered ⊢
        exact hanswered

theorem performAll_eq_dueAll {history : List (Event Handler)} {s : Switchboard Handler}
    (h : Reflects history s) (operations : List (Operation Handler)) :
    (s.performAll operations).1 = dueAll history operations ∧
      Reflects (history ++ dueAll history operations) (s.performAll operations).2 := by
  cases operations with
  | nil =>
    rw [performAll, dueAll, List.append_nil]
    exact ⟨rfl, h⟩
  | cons operation rest =>
    obtain ⟨hevents, hreflects⟩ := perform_eq_due h operation
    obtain ⟨hmore, hafter⟩ := performAll_eq_dueAll hreflects rest
    rw [performAll, dueAll, ← List.append_assoc]
    exact ⟨congrArg₂ (· ++ ·) hevents hmore, hafter⟩

end

/-- Whatever was done before, and whatever handlers do meanwhile: a message goes once to the handler
that was registered last for its session and not unregistered since, and to no other one.  A text
that is no message is refused first, then one for a session without a handler; neither changes
anything.  Registering answers with the handler that was replaced, unregistering with whether there
was one, and what is counted are the sessions that have a handler. -/
theorem performAll_empty_eq_dueAll (operations : List (Operation Handler)) :
    let run := (empty : Switchboard Handler).performAll operations
    run.1 = dueAll [] operations ∧ (∀ id, run.2.find? id = holder run.1 id) ∧
      run.2.size = (sessions run.1).card ∧
      ∀ id text reaction,
        run.2.perform (.dispatch id text reaction) =
          match Message.read text, holder run.1 id with
          | .error fault, _ => ([.answered id (.error (.malformed fault))], run.2)
          | .ok _, none => ([.answered id (.error (.unknownSession id))], run.2)
          | .ok message, some handler =>
            (.called id handler message :: (run.2.performAll reaction).1 ++ [.answered id (.ok ())],
              (run.2.performAll reaction).2) := by
  intro run
  obtain ⟨hevents, hreflects⟩ := performAll_eq_dueAll (@reflects_empty Handler) operations
  have h : Reflects run.1 run.2 := hevents ▸ hreflects
  refine ⟨hevents, h, h.size_eq, fun id text reaction => ?_⟩
  rw [perform_dispatch, h id]

end ContentCard.Switchboard
