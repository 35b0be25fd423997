import ContentCard.Proofs.Card.PaintOrder
import ContentCard.Session

/-!
# Which buttons of a card can be tapped

Every node of a card is painted, in the order of the tree.  A tap inside a button's frame and the
frames of all nodes around it goes to that button or to one that is painted above it.  A button
that sticks out of a node around it is painted there too, but cannot be tapped there.
-/

namespace ContentCard

namespace Visual

mutual

/-- All nodes of a visual, each in front of its children. -/
def nodes : Visual → List Visual
  | container box a children => container box a children :: nodesAll children
  | v => [v]

def nodesAll : List Visual → List Visual
  | [] => []
  | v :: rest => v.nodes ++ nodesAll rest

end

mutual

theorem map_visual_visits_placed (around : List Rect) (origin exact : Point) (v : Visual)
    (memo : Layout.Memo) :
    (v.visits around (Layout.placed origin exact v memo)).map Visit.visual = v.nodes := by
  cases v with
  | container box a children =>
    rw [Layout.placed, visits, nodes, List.map_cons, map_visual_visitsAll_placedAll _ _ _ children]
  | text | image | button | placeholder => rfl

theorem map_visual_visitsAll_placedAll (around : List Rect) (origin exact : Point)
    (vs : List Visual) (memos : List Layout.Memo) :
    (visitsAll around vs (Layout.placedAll origin exact vs memos)).map Visit.visual =
      nodesAll vs := by
  cases vs with
  | nil => rfl
  | cons v rest =>
    rw [Layout.placedAll, visitsAll, nodesAll, List.map_append,
      map_visual_visits_placed _ _ _ v, map_visual_visitsAll_placedAll _ _ _ rest]

end

/-- A button under the point is hit, or one that is painted after it. -/
theorem exists_hit_of_isUnder {v : Visual} {place : Placement} {i : Nat} {w : Visit} {p : Point}
    (hi : (v.visits [] place)[i]? = some w) (hw : w.visual.action?.isSome) (hp : w.IsUnder p) :
    ∃ j u action, i ≤ j ∧ (v.visits [] place)[j]? = some u ∧ u.IsUnder p ∧
      u.visual.action? = some action ∧ v.tapAction? p place = some action := by
  have hne : w.visual.action? ≠ none := Option.isSome_iff_ne_none.mp hw
  cases h : v.tapAction? p place with
  | none => exact absurd (tapAction?_eq_none_iff.mp h w (List.mem_of_getElem? hi) hp) hne
  | some action =>
    obtain ⟨before, u, after, hl, hu, ha, hafter⟩ := tapAction?_eq_some_iff.mp h
    rw [hl] at hi ⊢
    have hj : (before ++ u :: after)[before.length]? = some u := by
      rw [List.getElem?_append_right (Nat.le_refl _), Nat.sub_self, List.getElem?_cons_zero]
    refine ⟨before.length, u, action, Nat.le_of_not_lt fun hlt => hne ?_, hj, hu, ha, rfl⟩
    -- behind the button that is hit no other one is under the point
    apply hafter w _ hp
    rw [List.getElem?_append_right (Nat.le_of_lt hlt), show i - before.length =
      i - before.length - 1 + 1 by omega, List.getElem?_cons_succ] at hi
    exact List.mem_of_getElem? hi

end Visual

/-- The nodes of a card in the order in which they are painted. -/
def Card.visits (card : Card) : List Visit := card.tree.visits [] card.layout

namespace Session

variable {Handler : Type}

/-- Every node of a card is painted.  A tap inside the frame of a button and the frames of all nodes
around it is told to that button's handler or to that of a button painted above it. -/
theorem tap_reaches_button (s : Session Handler) (images : ImageSource) (room : Available) :
    (s.card images room).visits.map Visit.visual = (s.card images room).tree.nodes ∧
      ∀ (i : Nat) (w : Visit) (p : Point), (s.card images room).visits[i]? = some w →
        w.visual.action?.isSome → w.IsUnder p →
        ∃ (j : Nat) (u : Visit) (action : TapAction), i ≤ j ∧
          (s.card images room).visits[j]? = some u ∧ u.IsUnder p ∧
          u.visual.action? = some action ∧
          ∀ calls, ((s.card images room).tap TapAction.record p).run calls =
            (true, calls ++ [action]) := by
  generalize hc : s.card images room = card
  constructor
  · rw [← hc]
    exact Visual.map_visual_visits_placed [] _ _ _ _
  · intro i w p hi hw hp
    obtain ⟨j, u, action, hij, hj, hu, ha, h⟩ := Visual.exists_hit_of_isUnder hi hw hp
    refine ⟨j, u, action, hij, hj, hu, ha, fun calls => ?_⟩
    rw [Card.tap, Visual.run_tap_record, h]

end Session

/-- A narrow card with a button that is wider than the card. -/
def narrowSession : Session Unit :=
  let button : Node := .mk
    { type := .button, style := .empty, content := none, url := none
      label := some "A very long call to action", actionUrl := none, interactionId := some "go" }
    []
  let view : Node := .mk
    { type := .view, style := ⟨[("width", .number (.natural 40))]⟩, content := none, url := none
      label := none, actionUrl := none, interactionId := none }
    [button]
  .new ⟨view⟩ {}

def narrowCard : Card := narrowSession.card (fun _ => .pending) ⟨375, none⟩

/-- The button is under a point in the card, and holds a point that is beside the card. -/
theorem exists_narrowCard_button :
    ∃ w, narrowCard.visits[1]? = some w ∧ w.visual.action?.isSome ∧ w.IsUnder ⟨20, 10⟩ ∧
      w.place.frame.contains ⟨100, 10⟩ := by
  have h : narrowCard.visits[1]?.any (fun w => w.visual.action?.isSome &&
      (w.IsUnder ⟨20, 10⟩ && w.place.frame.contains ⟨100, 10⟩)) := by
    decide +kernel
  rw [Option.any_eq_true] at h
  obtain ⟨w, hw, h⟩ := h
  rw [Bool.and_eq_true, Bool.and_eq_true, decide_eq_true_eq] at h
  exact ⟨w, hw, h⟩

/-- A tap on the part of the button that is in the card reaches it. -/
theorem narrowCard_tap_reaches_button :
    ∃ w, narrowCard.visits[1]? = some w ∧ w.visual.action?.isSome ∧ w.IsUnder ⟨20, 10⟩ ∧
      ∃ (j : Nat) (u : Visit) (action : TapAction), 1 ≤ j ∧ narrowCard.visits[j]? = some u ∧
        u.IsUnder ⟨20, 10⟩ ∧ u.visual.action? = some action ∧
        ∀ calls, (narrowCard.tap TapAction.record ⟨20, 10⟩).run calls =
          (true, calls ++ [action]) := by
  obtain ⟨w, hw, ha, hp, -⟩ := exists_narrowCard_button
  exact ⟨w, hw, ha, hp, (narrowSession.tap_reaches_button (fun _ => .pending) ⟨375, none⟩).2 1 w
    ⟨20, 10⟩ hw ha hp⟩

/-- A tap on the part of a button that sticks out of a node around it is told to nobody. -/
theorem not_forall_button_tapped :
    ¬ ∀ (s : Session Unit) (images : ImageSource) (room : Available) (w : Visit) (p : Point),
      w ∈ (s.card images room).visits → w.visual.action?.isSome → w.place.frame.contains p →
      (((s.card images room).tap TapAction.record p).run []).1 = true := by
  intro h
  obtain ⟨w, hw, ha, -, hp⟩ := exists_narrowCard_button
  have ht : ((narrowCard.tap TapAction.record ⟨100, 10⟩).run []).1 = false := by decide +kernel
  have hf := h narrowSession (fun _ => .pending) ⟨375, none⟩ w ⟨100, 10⟩
    (List.mem_of_getElem? hw) ha hp
  exact Bool.false_ne_true (ht.symm.trans hf)

end ContentCard
