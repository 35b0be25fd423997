import ContentCard.Proofs.Layout.Ends
import ContentCard.Proofs.Node.Children
import ContentCard.Proofs.Visual.Children
import ContentCard.Proofs.Visual.Positions

/-!
# From the objects of a payload to the frames of a card

The objects that a payload shows are its root and, in a view, the objects under its children.  Each
of them becomes one node, one visual, one record of the layout and one placement, all at the same
position, and nothing else becomes one.
-/

namespace ContentCard

open Json

/-! ## 1. Nodes and visuals -/

namespace Visual

variable (s : Surroundings)

/-- The visual is that of the object's node, in some parent. -/
def Shows (members : Members) (v : Visual) : Prop :=
  ∃ parent, v = ofNode s parent (.ofMembers members)

theorem forall₂_shows {members : Members} {v : Visual} (h : Shows s members v) :
    List.Forall₂ (Shows s) members.childObjects v.children := by
  obtain ⟨parent, rfl⟩ := h
  rw [children_ofNode, Node.children_ofMembers, Node.type_ofMembers]
  by_cases ht : NodeData.typeOf members = .view
  · rw [if_pos ht, List.map_map]
    exact List.forall₂_map_right_iff.mpr (List.forall₂_same.mpr fun m _ => ⟨_, rfl⟩)
  · rw [if_neg ht, Members.childObjects, if_neg ht]
    exact .nil

end Visual

/-! ## 2. Visuals, records and placements -/

namespace Layout

/-- A visual's record is empty at first and holds one for each child. -/
theorem Item.memo_ofVisual (parent : Direction) (v : Visual) :
    ∃ direction, (Item.ofVisual parent v).memo =
      .mk .empty .origin (v.children.map fun child => (Item.ofVisual direction child).memo) := by
  cases v with
  | container box a vs =>
    refine ⟨a.direction, ?_⟩
    rw [Item.ofVisual, Item.memo, Item.memos_eq_map, Item.ofVisuals_eq_map, List.map_map]
    rfl
  | text box t =>
    refine ⟨parent, ?_⟩
    rw [Item.ofVisual]
    split <;> rfl
  | image | button | placeholder => exact ⟨parent, rfl⟩

/-- The records are those of the visual, in some parent. -/
def Memo.IsOf (m : Memo) (v : Visual) : Prop :=
  ∃ parent, m.HasShape (Item.ofVisual parent v).memo

theorem forall₂_isOf {v : Visual} {m : Memo} (h : m.IsOf v) :
    List.Forall₂ (fun v m => Memo.IsOf m v) v.children m.children := by
  obtain ⟨parent, h⟩ := h
  obtain ⟨direction, hd⟩ := Item.memo_ofVisual parent v
  obtain ⟨cache, place, memos⟩ := m
  rw [hd] at h
  have h := List.forall₂_map_right_iff.mp (Memo.hasShape_mk_iff.mp h)
  exact h.flip.imp fun _ _ h => ⟨direction, h⟩

theorem isOf_arranged (v : Visual) (room : Available) (measure : Measurer) :
    ((Item.ofVisual .column v).arranged room measure).IsOf v :=
  ⟨.column, Item.hasShape_arranged _ room measure⟩

/-- The placement is that of a visual, from some record. -/
def PlacedFrom (v : Visual) (p : Placement) : Prop :=
  ∃ origin exact m, p = placed origin exact v m

theorem forall₂_placedAll (origin exact : Point) (vs : List Visual) (memos : List Memo) :
    List.Forall₂ PlacedFrom vs (placedAll origin exact vs memos) := by
  induction vs generalizing memos with
  | nil => exact .nil
  | cons v rest ih =>
    rw [placedAll]
    exact .cons ⟨_, _, _, rfl⟩ (ih _)

theorem forall₂_placedFrom {v : Visual} {p : Placement} (h : PlacedFrom v p) :
    List.Forall₂ PlacedFrom v.children p.children := by
  obtain ⟨origin, exact, m, rfl⟩ := h
  cases v with
  | container box a vs => exact forall₂_placedAll _ _ vs m.children
  | text | image | button | placeholder => exact .nil

theorem getElem?_placedAll (origin exact : Point) {vs : List Visual} {memos : List Memo} {i : Nat}
    {v : Visual} {m : Memo} (hv : vs[i]? = some v) (hm : memos[i]? = some m) :
    (placedAll origin exact vs memos)[i]? = some (placed origin exact v m) := by
  induction vs generalizing memos i with
  | nil => cases hv
  | cons w rest ih =>
    cases memos with
    | nil => cases hm
    | cons m' memos =>
      rw [placedAll]
      cases i with
      | zero =>
        cases hv
        cases hm
        rfl
      | succ i => exact ih hv hm

theorem getElem?_children_placed (origin exact : Point) {v v' : Visual} {memo m' : Memo} {i : Nat}
    (hv : v.children[i]? = some v') (hm : memo.children[i]? = some m') :
    ∃ origin' exact',
      (placed origin exact v memo).children[i]? = some (placed origin' exact' v' m') := by
  cases v with
  | container box a vs => exact ⟨_, _, getElem?_placedAll _ _ hv hm⟩
  | text | image | button | placeholder => cases hv

/-- Wherever there is a visual, its placement comes from its own record. -/
theorem exists_placed_of_descend (origin exact : Point) {v : Visual} {memo : Memo}
    (hm : memo.IsOf v) {path : List Nat} {w : Visual}
    (hw : descend Visual.children v path = some w) :
    ∃ m origin' exact', descend Memo.children memo path = some m ∧
      descend Placement.children (placed origin exact v memo) path =
        some (placed origin' exact' w m) := by
  induction path generalizing v memo origin exact with
  | nil =>
    cases hw
    exact ⟨memo, origin, exact, rfl, rfl⟩
  | cons i path ih =>
    rw [descend] at hw
    obtain ⟨v', hv', hw'⟩ := Option.bind_eq_some_iff.mp hw
    have hrel := rel_getElem? (forall₂_isOf hm) i
    rw [hv'] at hrel
    obtain ⟨m', hm', hi⟩ := exists_of_rel_some hrel
    obtain ⟨origin', exact', hp⟩ := getElem?_children_placed origin exact hv' hm'
    obtain ⟨m, origin', exact', h, h'⟩ := ih origin' exact' hi hw'
    refine ⟨m, origin', exact', ?_, ?_⟩
    · rw [descend, hm']
      exact h
    · rw [descend, hp]
      exact h'

end Layout

/-! ## 3. The whole way -/

/-- The objects that a payload shows, its nodes, visuals, records and placements have the same
positions.  At each of them there is the object's node, a visual of the node's type, and a placement
that comes from the record at the same position.  The positions can be counted in the order of the
text; the placement has as many nodes, and the painter comes to each position once, with the visual
and the placement that are there.  This placement is what the layout answers, if it does: it may
fail to come to its end where a container shows children on top of each other, and nowhere else. -/
theorem Template.correspondence (payload : Members) (s : Surroundings) (room : Available)
    (ruler : Measurer) :
    ∃ t, Template.ofValue (.object payload) = .ok t ∧
      let tree := t.render s
      let records := (Layout.Item.ofVisual .column tree).arranged room ruler
      let layout := tree.placement room ruler
      (∀ place ∈ tree.layout? room ruler, place = layout) ∧
      ((∀ path v, descend Visual.children tree path = some v → ¬v.Overlays) →
        tree.layout? room ruler = some layout) ∧
      (∀ path, descend Node.children t.root path =
        (descend Members.childObjects payload path).map Node.ofMembers) ∧
      (∀ path, (descend Visual.children tree path).map Visual.nodeType =
        (descend Members.childObjects payload path).map NodeData.typeOf) ∧
      (∀ path, (descend Layout.Memo.children records path).isSome =
        (descend Visual.children tree path).isSome) ∧
      (∀ path, (descend Placement.children layout path).isSome =
        (descend Visual.children tree path).isSome) ∧
      (∀ path v, descend Visual.children tree path = some v →
        ∃ m origin exact, descend Layout.Memo.children records path = some m ∧
          descend Placement.children layout path = some (Layout.placed origin exact v m)) ∧
      ∃ positions : List (List Nat), positions.Pairwise (· < ·) ∧
        (∀ path, path ∈ positions ↔ (descend Members.childObjects payload path).isSome) ∧
        layout.nodeCount = positions.length ∧
        (tree.visits [] layout).map (fun w => (some w.visual, some w.place)) =
          positions.map fun path =>
            (descend Visual.children tree path, descend Placement.children layout path) := by
  refine ⟨⟨.ofMembers payload⟩, rfl, ?_⟩
  extract_lets tree records layout
  have hrecords : records.IsOf tree := Layout.isOf_arranged tree room ruler
  have hshows (path : List Nat) := descend_rel (fun _ _ h => Visual.forall₂_shows s h)
    (show Visual.Shows s payload tree from ⟨.column, rfl⟩) path
  have htype (path : List Nat) : (descend Visual.children tree path).map Visual.nodeType =
      (descend Members.childObjects payload path).map NodeData.typeOf := by
    refine (map_eq_of_rel (hshows path) fun members v h => ?_).symm
    obtain ⟨parent, rfl⟩ := h
    exact (Visual.nodeType_ofNode s parent (.ofMembers members)).symm
  refine ⟨fun place hplace => ?_, fun h => Visual.layout?_of_not_overlays h room ruler,
    descend_map Node.children_ofMembers payload, htype, fun path => ?_, fun path => ?_,
    fun path v hv => Layout.exists_placed_of_descend _ _ hrecords hv,
    tree.positions, tree.pairwise_positions, fun path => ?_,
    Visual.nodeCount_placed _ _ tree records, Visual.visits_placed [] _ _ tree records⟩
  · rw [Visual.layout?, Option.mem_def, Option.ite_none_left_eq_some] at hplace
    exact (Option.some.inj hplace.2).symm
  · exact (isSome_eq_of_rel (descend_rel (fun _ _ h => Layout.forall₂_isOf h) hrecords path)).symm
  · exact (isSome_eq_of_rel (descend_rel (fun _ _ h => Layout.forall₂_placedFrom h)
      (show Layout.PlacedFrom tree layout from ⟨_, _, _, rfl⟩) path)).symm
  · rw [tree.mem_positions_iff path, isSome_eq_of_rel (hshows path)]

/-- An overlay with a single text in it, of six bold letters of 13 pixels.  In one line they are
51.48 pixels wide, and one below the other 8.58 pixels; between the two, rounds go on for ever. -/
def stackedLetters : Members :=
  [("type", .string "view"), ("style", .object [("flexDirection", .string "box")]),
    ("children", .array [.object [("type", .string "text"), ("content", .string "abcdef"),
      ("style", .object [("fontSize", .number (.natural 13)), ("fontWeight", .string "bold")])]])]

/-- Not every layout comes to its end. -/
theorem Template.not_forall_layout :
    ¬ ∀ (payload : Members) (s : Surroundings) (room : Available) (ruler : Measurer) (t : Template),
      Template.ofValue (.object payload) = .ok t →
        ∃ layout, (t.render s).layout? room ruler = some layout := by
  intro h
  obtain ⟨layout, hlayout⟩ := h stackedLetters ⟨{}, Estimate.measure {}, fun _ => .pending⟩
    ⟨375, none⟩ (Estimate.measure {}) ⟨.ofMembers stackedLetters⟩ rfl
  have hnone : (((⟨.ofMembers stackedLetters⟩ : Template).render
      ⟨{}, Estimate.measure {}, fun _ => .pending⟩).layout? ⟨375, none⟩
        (Estimate.measure {})).isNone := by
    decide +kernel
  rw [hlayout] at hnone
  cases hnone

end ContentCard
