import ContentCard.Proofs.Card.PaintOrder
import ContentCard.Proofs.Tree.Descend
import Mathlib.Data.List.Basic

/-!
# The positions of a visual

`Visual.positions` are the positions of all nodes of a visual, each once, in increasing order: a
node comes before the nodes inside it, and these come before its next sibling.
-/

namespace ContentCard

/-- The same position under the next sibling. -/
def sibling : List Nat → List Nat
  | [] => []
  | i :: path => (i + 1) :: path

/-- What is at a position under a row of siblings. -/
def descendInto {α : Type} (children : α → List α) (xs : List α) : List Nat → Option α
  | [] => none
  | i :: path => xs[i]?.bind fun x => descend children x path

theorem descendInto_cons_sibling {α : Type} (children : α → List α) (x : α) (xs : List α)
    (path : List Nat) :
    descendInto children (x :: xs) (sibling path) = descendInto children xs path := by
  cases path <;> rfl

namespace Visual

mutual

def positions : Visual → List (List Nat)
  | container _ _ children => [] :: positionsAll children
  | _ => [[]]

def positionsAll : List Visual → List (List Nat)
  | [] => []
  | v :: rest => v.positions.map (0 :: ·) ++ (positionsAll rest).map sibling

end

/-! ## 1. All positions, each once -/

mutual

theorem mem_positions_iff (v : Visual) (path : List Nat) :
    path ∈ v.positions ↔ (descend children v path).isSome := by
  cases v with
  | container box a vs =>
    rw [positions]
    cases path with
    | nil => exact ⟨fun _ => rfl, fun _ => List.mem_cons_self⟩
    | cons i path =>
      have h := mem_positionsAll_iff vs (i :: path)
      rw [List.mem_cons, h]
      exact ⟨fun hp => hp.resolve_left (List.cons_ne_nil i path), .inr⟩
  | text | image | button | placeholder =>
    -- a leaf has no position but its own
    cases path with
    | nil => exact ⟨fun _ => rfl, fun _ => List.mem_cons_self⟩
    | cons i path =>
      exact ⟨fun h => absurd (List.mem_singleton.mp h) (List.cons_ne_nil i path), (nomatch ·)⟩

theorem mem_positionsAll_iff (vs : List Visual) (path : List Nat) :
    path ∈ positionsAll vs ↔ (descendInto children vs path).isSome := by
  cases vs with
  | nil => cases path <;> exact ⟨(nomatch ·), (nomatch ·)⟩
  | cons v rest =>
    rw [positionsAll, List.mem_append, List.mem_map, List.mem_map]
    cases path with
    | nil =>
      have hn := mem_positionsAll_iff rest []
      constructor
      · rintro (⟨p, _, hp⟩ | ⟨p, hm, hp⟩)
        · nomatch hp
        · cases p with
          | nil => exact hn.mp hm
          | cons i p => nomatch hp
      · intro h
        nomatch h
    | cons i path =>
      cases i with
      | zero =>
        rw [show descendInto children (v :: rest) (0 :: path) = descend children v path from rfl,
          ← mem_positions_iff v path]
        constructor
        · rintro (⟨p, hm, hp⟩ | ⟨p, _, hp⟩)
          · exact (List.cons.inj hp).2 ▸ hm
          · cases p <;> nomatch hp
        · exact fun h => .inl ⟨path, h, rfl⟩
      | succ i =>
        have hs := descendInto_cons_sibling children v rest (i :: path)
        rw [show (i + 1) :: path = sibling (i :: path) from rfl, hs,
          ← mem_positionsAll_iff rest (i :: path)]
        constructor
        · rintro (⟨p, _, hp⟩ | ⟨p, hm, hp⟩)
          · nomatch hp
          · cases p with
            | nil => nomatch hp
            | cons j p =>
              obtain ⟨rfl, rfl⟩ := hp
              exact hm
        · exact fun h => .inr ⟨i :: path, h, rfl⟩

end

/-! ## 2. Increasing order -/

theorem sibling_lt_sibling {p q : List Nat} (h : p < q) : sibling p < sibling q := by
  cases p with
  | nil =>
    cases q with
    | nil => exact absurd h (List.lt_irrefl [])
    | cons j q => exact List.nil_lt_cons _ _
  | cons i p =>
    cases q with
    | nil => exact absurd h (List.not_lt_nil _)
    | cons j q =>
      refine List.cons_lt_cons_iff.mpr ?_
      rcases List.cons_lt_cons_iff.mp h with hij | ⟨rfl, hpq⟩
      · exact .inl (Nat.succ_lt_succ hij)
      · exact .inr ⟨rfl, hpq⟩

theorem ne_nil_of_mem_positionsAll {vs : List Visual} {path : List Nat}
    (h : path ∈ positionsAll vs) : path ≠ [] := by
  rintro rfl
  exact Bool.false_ne_true ((mem_positionsAll_iff vs []).mp h)

mutual

theorem pairwise_positions (v : Visual) : v.positions.Pairwise (· < ·) := by
  cases v with
  | container box a vs =>
    refine List.pairwise_cons.mpr ⟨fun path h => ?_, pairwise_positionsAll vs⟩
    obtain ⟨i, path, rfl⟩ := List.exists_cons_of_ne_nil (ne_nil_of_mem_positionsAll h)
    exact List.nil_lt_cons i path
  | text | image | button | placeholder => exact List.pairwise_singleton _ _

theorem pairwise_positionsAll (vs : List Visual) : (positionsAll vs).Pairwise (· < ·) := by
  cases vs with
  | nil => exact .nil
  | cons v rest =>
    refine List.pairwise_append.mpr ⟨?_, ?_, ?_⟩
    · exact (pairwise_positions v).map _ fun _ _ h => List.cons_lt_cons_iff.mpr (.inr ⟨rfl, h⟩)
    · exact (pairwise_positionsAll rest).map _ fun _ _ h => sibling_lt_sibling h
    -- all that is under the first child comes before what is under a later one
    · intro p hp q hq
      obtain ⟨p, -, rfl⟩ := List.mem_map.mp hp
      obtain ⟨q, hmem, rfl⟩ := List.mem_map.mp hq
      obtain ⟨i, q, rfl⟩ := List.exists_cons_of_ne_nil (ne_nil_of_mem_positionsAll hmem)
      exact List.cons_lt_cons_iff.mpr (.inl (Nat.succ_pos i))

end

/-! ## 3. Placements and visits -/

mutual

theorem nodeCount_placed (origin exact : Point) (v : Visual) (memo : Layout.Memo) :
    (Layout.placed origin exact v memo).nodeCount = v.positions.length := by
  cases v with
  | container box a vs =>
    rw [Layout.placed, Placement.nodeCount, nodeCounts_placedAll _ _ vs, positions,
      List.length_cons, Nat.add_comm]
  | text | image | button | placeholder => rfl

theorem nodeCounts_placedAll (origin exact : Point) (vs : List Visual)
    (memos : List Layout.Memo) :
    Placement.nodeCounts (Layout.placedAll origin exact vs memos) = (positionsAll vs).length := by
  cases vs with
  | nil => rfl
  | cons v rest =>
    rw [Layout.placedAll, Placement.nodeCounts, nodeCount_placed _ _ v,
      nodeCounts_placedAll _ _ rest, positionsAll, List.length_append, List.length_map,
      List.length_map]

end

theorem descend_eq_descendInto {α : Type} (children : α → List α) (x : α) {path : List Nat}
    (h : path ≠ []) : descend children x path = descendInto children (children x) path := by
  obtain ⟨i, path, rfl⟩ := List.exists_cons_of_ne_nil h
  rfl

mutual

/-- The painter comes to the positions in their order, and to each node with its own placement. -/
theorem visits_placed (around : List Rect) (origin exact : Point) (v : Visual)
    (memo : Layout.Memo) :
    (v.visits around (Layout.placed origin exact v memo)).map
        (fun w => (some w.visual, some w.place)) =
      v.positions.map fun path => (descend children v path,
        descend Placement.children (Layout.placed origin exact v memo) path) := by
  cases v with
  | container box a vs =>
    have hpos (path : List Nat) (hp : path ∈ positionsAll vs) :=
      ne_nil_of_mem_positionsAll hp
    rw [Layout.placed, visits, positions, List.map_cons, List.map_cons,
      visitsAll_placedAll _ _ _ vs]
    refine congrArg (_ :: ·) (List.map_congr_left fun path hp => ?_)
    rw [descend_eq_descendInto children _ (hpos path hp),
      descend_eq_descendInto Placement.children _ (hpos path hp)]
    rfl
  | text | image | button | placeholder => rfl

theorem visitsAll_placedAll (around : List Rect) (origin exact : Point) (vs : List Visual)
    (memos : List Layout.Memo) :
    (visitsAll around vs (Layout.placedAll origin exact vs memos)).map
        (fun w => (some w.visual, some w.place)) =
      (positionsAll vs).map fun path => (descendInto children vs path,
        descendInto Placement.children (Layout.placedAll origin exact vs memos) path) := by
  cases vs with
  | nil => rfl
  | cons v rest =>
    rw [Layout.placedAll, visitsAll, positionsAll, List.map_append, List.map_append,
      visits_placed _ _ _ v, visitsAll_placedAll _ _ _ rest, List.map_map, List.map_map]
    congr 1
    refine List.map_congr_left fun path _ => ?_
    rw [Function.comp_apply, descendInto_cons_sibling, descendInto_cons_sibling]

end

/-- The painter comes to nothing that is not in the tree. -/
theorem exists_descend_of_mem_visits {origin exact : Point} {v : Visual} {memo : Layout.Memo}
    {w : Visit} (h : w ∈ v.visits [] (Layout.placed origin exact v memo)) :
    ∃ path, descend children v path = some w.visual := by
  have hmem := List.mem_map_of_mem (f := fun w : Visit => (some w.visual, some w.place)) h
  rw [visits_placed, List.mem_map] at hmem
  obtain ⟨path, -, hpath⟩ := hmem
  exact ⟨path, (Prod.ext_iff.mp hpath).1⟩

end Visual

end ContentCard
