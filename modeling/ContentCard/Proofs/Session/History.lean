import ContentCard.Session.Operation

/-!
# What a session answers, from the operations before

A session that was just made is operated in any order.  All that matters to a tap is the handler
that was set last and the card of the last rendering that did not fail, and a card depends on
nothing that was done before it was rendered.
-/

namespace ContentCard.Session

variable {Handler : Type}

/-! ## 1. Answers from the operations before -/

def Operation.handler? : Operation Handler → Option Handler
  | .setHandler handler => some handler
  | .render _ | .tap _ | .writeCard => none

/-- The card that an operation brings, if it renders one. -/
def Operation.card? (cardAt : Available → Except LayoutFault Card) :
    Operation Handler → Option Card
  | .render room => (cardAt room).toOption
  | .setHandler _ | .tap _ | .writeCard => none

def lastHandler (before : List (Operation Handler)) : Option Handler :=
  (before.filterMap Operation.handler?).getLast?

/-- The card of the last rendering that did not fail. -/
def lastCard (cardAt : Available → Except LayoutFault Card) (before : List (Operation Handler)) :
    Option Card :=
  (before.filterMap (Operation.card? cardAt)).getLast?

/-- The answer to an operation.  `cardAt` is the card of the session in the available room. -/
def answerAfter (cardAt : Available → Except LayoutFault Card) (before : List (Operation Handler)) :
    Operation Handler → Answer Handler
  | .render room => .rendered (cardAt room)
  | .setHandler _ => .handlerSet
  | .tap point =>
    match lastCard cardAt before, lastHandler before with
    | some card, some handler =>
      match card.tapAction? point with
      | some action => .tapped true [(handler, action)]
      | none => .tapped false []
    | _, _ => .tapped false []
  | .writeCard => .written ((lastCard cardAt before).map fun card => card.document.text)

section

variable (cardAt : Available → Except LayoutFault Card) (before : List (Operation Handler))
  (operation : Operation Handler)

theorem lastHandler_append_singleton :
    lastHandler (before ++ [operation]) = operation.handler?.or (lastHandler before) := by
  simp [lastHandler]

theorem lastCard_append_singleton :
    lastCard cardAt (before ++ [operation]) =
      (operation.card? cardAt).or (lastCard cardAt before) := by
  simp [lastCard]

end

/-! ## 2. Runs -/

theorem tapRecorded_eq (s : Session Handler) (p : Point) :
    s.tapRecorded p =
      match s.rendered, s.handler with
      | some card, some handler =>
        match card.tapAction? p with
        | some action => (true, [(handler, action)])
        | none => (false, [])
      | _, _ => (false, []) := by
  rw [tapRecorded, tap]
  cases s.rendered with
  | none => rfl
  | some card =>
    cases s.handler with
    | none => rfl
    | some handler =>
      simp only [Card.tap, Visual.tap, Card.tapAction?]
      cases card.tree.tapAction? p card.layout <;> rfl

section

variable (start : Session Handler) (engine : LayoutEngine) (images : ImageSource)

/-- The cards of a session. -/
def cardBy (room : Available) : Except LayoutFault Card :=
  start.template.cardBy engine ⟨start.config, start.measure, images⟩ room

/-- The session after the operations. -/
def after (before : List (Operation Handler)) : Session Handler :=
  { start with
    handler := lastHandler before
    rendered := lastCard (start.cardBy engine images) before }

/-- One operation. -/
theorem perform_after (before : List (Operation Handler)) (operation : Operation Handler) :
    (start.after engine images before).perform engine images operation =
      (answerAfter (start.cardBy engine images) before operation,
        start.after engine images (before ++ [operation])) := by
  rw [after, after, lastHandler_append_singleton, lastCard_append_singleton]
  cases operation with
  | render room =>
    have hcard : start.template.cardBy engine ⟨start.config, start.measure, images⟩ room =
        start.cardBy engine images room := rfl
    simp only [perform, renderBy, hcard, answerAfter, Operation.card?, Operation.handler?]
    cases start.cardBy engine images room <;> rfl
  | setHandler handler => rfl
  | tap point =>
    -- the record of the calls is the only thing a tap leaves behind
    rw [perform, tapRecorded_eq, answerAfter]
    cases lastCard (start.cardBy engine images) before with
    | none => rfl
    | some card =>
      cases lastHandler before with
      | none => rfl
      | some handler =>
        dsimp only
        cases card.tapAction? point <;> rfl
  | writeCard => rfl

/-- All operations. -/
theorem performAll_after (before operations : List (Operation Handler)) :
    ((start.after engine images before).performAll engine images operations).2 =
        start.after engine images (before ++ operations) ∧
      ∀ i, ((start.after engine images before).performAll engine images operations).1[i]? =
        operations[i]?.map
          (answerAfter (start.cardBy engine images) (before ++ operations.take i)) := by
  -- each operation that is done joins those before
  induction operations generalizing before with
  | nil => simp [performAll]
  | cons operation rest ih =>
    obtain ⟨hstate, hanswers⟩ := ih (before ++ [operation])
    rw [performAll, perform_after]
    simp only [List.append_assoc, List.singleton_append] at hstate hanswers
    refine ⟨hstate, fun i => ?_⟩
    cases i with
    | zero => simp
    | succ i => simpa using hanswers i

end

/-- A tap tells the handler that was set last, once, what the button under the point is for, on the
card of the last rendering that did not fail; without a handler, a card or a button it tells
nobody.  Taps, the text of a card and a rendering that fails leave everything as it is.  What a
rendering brings is settled by the template, the configuration, the measurer, the images and the
available room. -/
theorem performAll_new_answers (template : Template) (config : Config) (measure : Measurer)
    (engine : LayoutEngine) (images : ImageSource) (operations : List (Operation Handler)) :
    let start : Session Handler := { Session.new template config with measure }
    let cardAt := template.cardBy engine ⟨config, measure, images⟩
    let run := start.performAll engine images operations
    (∀ i, run.1[i]? = operations[i]?.map (answerAfter cardAt (operations.take i))) ∧
      run.2 =
        { start with handler := lastHandler operations, rendered := lastCard cardAt operations } ∧
      (∀ point, (run.2.perform engine images (.tap point)).2 = run.2) ∧
      (run.2.perform engine images .writeCard).2 = run.2 ∧
      ∀ room, (run.2.perform engine images (.render room)).2 =
        match cardAt room with
        | .ok card => { run.2 with rendered := some card }
        | .error _ => run.2 := by
  intro start cardAt run
  obtain ⟨hstate, hanswers⟩ := start.performAll_after engine images [] operations
  rw [List.nil_append] at hstate
  refine ⟨hanswers, hstate, fun point => rfl, rfl, fun room => ?_⟩
  have hcard : run.2.template.cardBy engine ⟨run.2.config, run.2.measure, images⟩ room =
      cardAt room := by
    rw [show run.2 = _ from hstate]
    rfl
  simp only [perform, renderBy, hcard]
  cases cardAt room <;> rfl

end ContentCard.Session
