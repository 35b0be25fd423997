import ContentCard.Card.Paint
import ContentCard.Card.Tap

/-!
# Taps follow the order of painting

The painter comes to the nodes of a card one after the other (`Visual.visits`), and all that it
paints is what it paints at each of them.  A tap is for the last button, in this order, whose frame
holds the point together with the frames of all nodes around it.
-/

namespace ContentCard

/-! ## 1. The order of painting -/

/-- A node when the painter comes to it, with the frames of the nodes around it. -/
structure Visit where
  visual : Visual
  place : Placement
  around : List Rect

namespace Visual

mutual

/-- The nodes of a visual in the order in which they are painted. -/
def visits (around : List Rect) : Visual → Placement → List Visit
  | v, ⟨frame, content, places⟩ =>
    ⟨v, ⟨frame, content, places⟩, around⟩ ::
      match v with
      | container _ _ children => visitsAll (frame :: around) children places
      | _ => []

def visitsAll (around : List Rect) : List Visual → List Placement → List Visit
  | v :: vs, place :: places => v.visits around place ++ visitsAll around vs places
  | _, _ => []

end

end Visual

namespace Paint

/-- What is painted at a node, its children aside. -/
def ownMarks (p : PaintBox) (w : Visit) : List Mark :=
  boxMarks w.visual.box w.place.frame ++
    match w.visual with
    | .container .. => []
    | .text _ t => textMarks p t w.place.content false
    | .button _ b => textMarks p b.label w.place.content true
    | .image _ c => imageMarks p c w.place.content
    | .placeholder _ n =>
      .stroke w.place.frame 2 1 noticeColor ::
        textMarks p (noticeLettering n) w.place.content false

mutual

theorem marks_eq_flatMap_visits (p : PaintBox) (around : List Rect) (v : Visual)
    (place : Placement) :
    marks p v place = (v.visits around place).flatMap (ownMarks p) := by
  obtain ⟨frame, content, places⟩ := place
  cases v with
  | container box a children =>
    rw [marks, Visual.visits, List.flatMap_cons, ownMarks, List.append_nil,
      allMarks_eq_flatMap_visitsAll p (frame :: around) children places]
  | text | image | button | placeholder => exact (List.append_nil _).symm

theorem allMarks_eq_flatMap_visitsAll (p : PaintBox) (around : List Rect) (vs : List Visual)
    (places : List Placement) :
    allMarks p vs places = (Visual.visitsAll around vs places).flatMap (ownMarks p) := by
  match vs, places with
  | [], _ | _ :: _, [] => rfl
  | v :: vs, place :: places =>
    rw [allMarks, Visual.visitsAll, List.flatMap_append, marks_eq_flatMap_visits p around v place,
      allMarks_eq_flatMap_visitsAll p around vs places]

end

end Paint

/-! ## 2. The last button under a point -/

def Visual.action? : Visual → Option TapAction
  | button _ content => some content.action
  | _ => none

namespace Visit

/-- The point is in the node's frame and in the frames of all nodes around it. -/
def IsUnder (w : Visit) (p : Point) : Prop := ∀ frame ∈ w.place.frame :: w.around, frame.contains p

instance (w : Visit) (p : Point) : Decidable (w.IsUnder p) :=
  inferInstanceAs (Decidable (∀ _ ∈ _, _))

/-- What a tap is for if it hits this node and nothing above it. -/
def hit? (p : Point) (w : Visit) : Option TapAction :=
  if w.IsUnder p then w.visual.action? else none

theorem hit?_eq_some_iff {p : Point} {w : Visit} {action : TapAction} :
    w.hit? p = some action ↔ w.IsUnder p ∧ w.visual.action? = some action := by
  rw [hit?, Option.ite_none_right_eq_some]

theorem hit?_eq_none_iff {p : Point} {w : Visit} :
    w.hit? p = none ↔ (w.IsUnder p → w.visual.action? = none) := by
  rw [hit?, ite_eq_right_iff]

theorem hit?_eq_none_of_mem_around {p : Point} {w : Visit} {frame : Rect} (hf : frame ∈ w.around)
    (hp : ¬ frame.contains p) : w.hit? p = none :=
  if_neg fun h => hp (h frame (List.mem_cons_of_mem _ hf))

end Visit

namespace Visual

variable {p : Point} {around : List Rect}

mutual

/-- Inside a frame that does not hold the point nothing is hit. -/
theorem filterMap_hit?_eq_nil {frame : Rect} {around : List Rect} (hf : frame ∈ around)
    (hp : ¬ frame.contains p) (v : Visual) (place : Placement) :
    (v.visits around place).filterMap (Visit.hit? p) = [] := by
  obtain ⟨own, content, places⟩ := place
  have hn (v : Visual) : (Visit.mk v ⟨own, content, places⟩ around).hit? p = none :=
    Visit.hit?_eq_none_of_mem_around hf hp
  cases v with
  | container box a children =>
    rw [visits, List.filterMap_cons_none (hn _)]
    exact filterMap_hit?_all_eq_nil (List.mem_cons_of_mem own hf) hp children places
  | text | image | button | placeholder => exact List.filterMap_cons_none (hn _)

theorem filterMap_hit?_all_eq_nil {frame : Rect} {around : List Rect} (hf : frame ∈ around)
    (hp : ¬ frame.contains p) (vs : List Visual) (places : List Placement) :
    (visitsAll around vs places).filterMap (Visit.hit? p) = [] := by
  match vs, places with
  | [], _ | _ :: _, [] => rfl
  | v :: vs, place :: places =>
    rw [visitsAll, List.filterMap_append, filterMap_hit?_eq_nil hf hp v place,
      filterMap_hit?_all_eq_nil hf hp vs places, List.nil_append]

end

theorem lastTapAction?_cons (v : Visual) (vs : List Visual) (place : Placement)
    (places : List Placement) :
    lastTapAction? p (v :: vs) (place :: places) =
      (lastTapAction? p vs places).or (v.tapAction? p place) := by
  rw [lastTapAction?]
  cases lastTapAction? p vs places <;> rfl

theorem tapAction?_of_not_contains (v : Visual) (place : Placement)
    (hp : ¬ place.frame.contains p) : v.tapAction? p place = none := by
  obtain ⟨frame, content, places⟩ := place
  cases v <;> exact if_neg hp

mutual

/-- The button that is found is the last one painted. -/
theorem getLast?_hits (v : Visual) (place : Placement) (around : List Rect)
    (ha : ∀ frame ∈ around, frame.contains p) :
    ((v.visits around place).filterMap (Visit.hit? p)).getLast? = v.tapAction? p place := by
  obtain ⟨frame, content, places⟩ := place
  -- the frames around hold the point, so the node's own frame decides
  by_cases hp : frame.contains p
  · have hall : ∀ f ∈ frame :: around, f.contains p := List.forall_mem_cons.mpr ⟨hp, ha⟩
    have hn (v : Visual) (h : v.action? = none) :
        (Visit.mk v ⟨frame, content, places⟩ around).hit? p = none :=
      Visit.hit?_eq_none_iff.mpr fun _ => h
    cases v with
    -- a container is no button itself: what is hit is hit in its children
    | container box a children =>
      rw [visits, List.filterMap_cons_none (hn _ rfl), tapAction?, if_pos hp]
      exact getLast?_hits_all children places (frame :: around) hall
    | button box b =>
      have hs : (Visit.mk (button box b) ⟨frame, content, places⟩ around).hit? p = some b.action :=
        Visit.hit?_eq_some_iff.mpr ⟨hall, rfl⟩
      show (List.filterMap _ [_]).getLast? = _
      rw [List.filterMap_cons_some hs, tapAction?, if_pos hp]
      rfl
    | text | image | placeholder =>
      show (List.filterMap _ [_]).getLast? = _
      rw [List.filterMap_cons_none (hn _ rfl), tapAction?, if_pos hp]
      rfl
  · have hn : (Visit.mk v ⟨frame, content, places⟩ around).hit? p = none :=
      if_neg fun h => hp (h frame List.mem_cons_self)
    have hv : (v.visits around ⟨frame, content, places⟩).filterMap (Visit.hit? p) = [] := by
      cases v with
      | container box a children =>
        rw [visits, List.filterMap_cons_none hn]
        exact filterMap_hit?_all_eq_nil List.mem_cons_self hp children places
      | text | image | button | placeholder => exact List.filterMap_cons_none hn
    rw [hv, tapAction?_of_not_contains v ⟨frame, content, places⟩ hp, List.getLast?_nil]

theorem getLast?_hits_all (vs : List Visual) (places : List Placement) (around : List Rect)
    (ha : ∀ frame ∈ around, frame.contains p) :
    ((visitsAll around vs places).filterMap (Visit.hit? p)).getLast? =
      lastTapAction? p vs places := by
  match vs, places with
  | [], _ | _ :: _, [] => rfl
  | v :: vs, place :: places =>
    rw [visitsAll, List.filterMap_append, List.getLast?_append, getLast?_hits v place around ha,
      getLast?_hits_all vs places around ha, lastTapAction?_cons]

end

theorem tapAction?_eq_findSome? (p : Point) (v : Visual) (place : Placement) :
    v.tapAction? p place = (v.visits [] place).reverse.findSome? (Visit.hit? p) := by
  rw [← getLast?_hits v place [] (List.forall_mem_nil _), List.getLast?_filterMap]

theorem tapAction?_eq_some_iff {v : Visual} {place : Placement} {action : TapAction} :
    v.tapAction? p place = some action ↔
      ∃ before w after, v.visits [] place = before ++ w :: after ∧ w.IsUnder p ∧
        w.visual.action? = some action ∧ ∀ u ∈ after, u.IsUnder p → u.visual.action? = none := by
  -- the first hit from the back; what the search passes over comes after it from the front
  rw [tapAction?_eq_findSome?, List.findSome?_eq_some_iff]
  constructor
  · rintro ⟨after, w, before, hl, hw, hu⟩
    obtain ⟨hp, ha⟩ := Visit.hit?_eq_some_iff.mp hw
    refine ⟨before.reverse, w, after.reverse, ?_, hp, ha, fun u h => ?_⟩
    · rw [List.reverse_eq_iff.mp hl, List.reverse_append, List.reverse_cons, List.append_assoc]
      rfl
    · exact Visit.hit?_eq_none_iff.mp (hu u (List.mem_reverse.mp h))
  · rintro ⟨before, w, after, hl, hp, ha, hu⟩
    refine ⟨after.reverse, w, before.reverse, ?_, Visit.hit?_eq_some_iff.mpr ⟨hp, ha⟩,
      fun u h => ?_⟩
    · rw [hl, List.reverse_append, List.reverse_cons, List.append_assoc]
      rfl
    · exact Visit.hit?_eq_none_iff.mpr (hu u (List.mem_reverse.mp h))

theorem tapAction?_eq_none_iff {v : Visual} {place : Placement} :
    v.tapAction? p place = none ↔
      ∀ w ∈ v.visits [] place, w.IsUnder p → w.visual.action? = none := by
  rw [tapAction?_eq_findSome?, List.findSome?_eq_none_iff]
  simp only [List.mem_reverse, Visit.hit?_eq_none_iff]

theorem run_tap_record (v : Visual) (place : Placement) (p : Point) (calls : List TapAction) :
    (v.tap TapAction.record p place).run calls =
      match v.tapAction? p place with
      | some action => (true, calls ++ [action])
      | none => (false, calls) := by
  rw [tap]
  cases v.tapAction? p place <;> rfl

/-- A tap is for the button that is painted last of those under the point.  Its handler is told so
once; without such a button it is told nothing. -/
theorem tap_last_painted (v : Visual) (place : Placement) (p : Point) :
    (∀ box, Paint.marks box v place = (v.visits [] place).flatMap (Paint.ownMarks box)) ∧
      (∀ action, v.tapAction? p place = some action ↔
        ∃ before w after, v.visits [] place = before ++ w :: after ∧ w.IsUnder p ∧
          w.visual.action? = some action ∧
          ∀ u ∈ after, u.IsUnder p → u.visual.action? = none) ∧
      (v.tapAction? p place = none ↔
        ∀ w ∈ v.visits [] place, w.IsUnder p → w.visual.action? = none) ∧
      ∀ calls, (v.tap TapAction.record p place).run calls =
        match v.tapAction? p place with
        | some action => (true, calls ++ [action])
        | none => (false, calls) := by
  refine ⟨fun box => Paint.marks_eq_flatMap_visits box [] v place, fun action => ?_, ?_, ?_⟩
  · exact tapAction?_eq_some_iff
  · exact tapAction?_eq_none_iff
  · exact run_tap_record v place p

end Visual

end ContentCard
