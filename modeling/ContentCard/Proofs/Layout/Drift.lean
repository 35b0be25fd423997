import ContentCard.Proofs.Card.Correspondence
import ContentCard.Proofs.Number.Nearest

/-!
# Drift of positions

The layout finds the place of every node in its parent, in fractions of a pixel.  Each of these
offsets is rounded before it is added to the position of the parent's frame.  So a node can be off
by half a pixel for each node on the way to it from the root: by one pixel at most for the children
of the root, and by more the deeper it is.
-/

namespace ContentCard

open Number (value sumLoss)

def Point.coordinate (p : Point) : Axis → Float32
  | .horizontal => p.x
  | .vertical => p.y

/-- The coordinate of the corner at the start of both axes. -/
def Rect.start (r : Rect) : Axis → Float32
  | .horizontal => r.x
  | .vertical => r.y

namespace Layout

def Place.offset (p : Place) : Axis → Float32
  | .horizontal => p.x
  | .vertical => p.y

/-! ## 1. From a frame to the frames inside it -/

variable {origin exact : Point} {v v' : Visual} {memo m' : Memo} {i : Nat} {path : List Nat}
  {place : Placement} {axis : Axis}

/-- The frame of a node starts at the rounded offset from where its parent's frame starts. -/
theorem start_frame_placed (origin exact : Point) (v : Visual) (memo : Memo) (axis : Axis) :
    (placed origin exact v memo).frame.start axis =
      origin.coordinate axis + Number.round (memo.place.offset axis) := by
  cases v <;> cases axis <;> rfl

theorem getElem?_children_placed_inside (origin exact : Point) (hv : v.children[i]? = some v')
    (hm : memo.children[i]? = some m') :
    ∃ exact', (placed origin exact v memo).children[i]? =
      some (placed ⟨(placed origin exact v memo).frame.x, (placed origin exact v memo).frame.y⟩
        exact' v' m') := by
  cases v with
  | container box a vs => exact ⟨_, getElem?_placedAll _ _ hv hm⟩
  | text | image | button | placeholder => cases hv

/-- Below a node a placement is that of a child, from the child's own record. -/
theorem exists_child_of_descend_placed (hm : memo.IsOf v)
    (h : descend Placement.children (placed origin exact v memo) (i :: path) = some place) :
    ∃ (origin' exact' : Point) (v' : Visual) (m' : Memo), m'.IsOf v' ∧
      memo.children[i]? = some m' ∧
      (placed origin exact v memo).children[i]? = some (placed origin' exact' v' m') ∧
      (∀ axis, origin'.coordinate axis = (placed origin exact v memo).frame.start axis) ∧
      descend Placement.children (placed origin' exact' v' m') path = some place := by
  obtain ⟨p, hp, hplace⟩ := Option.bind_eq_some_iff.mp h
  -- there is a placement, so there is a visual, and so there is a record
  have hfrom : PlacedFrom v (placed origin exact v memo) := ⟨origin, exact, memo, rfl⟩
  have hvisual := rel_getElem? (forall₂_placedFrom hfrom) i
  obtain ⟨v', hv'⟩ := Option.isSome_iff_exists.mp
    ((isSome_eq_of_rel hvisual).trans (by rw [hp]; rfl))
  have hrecord := rel_getElem? (forall₂_isOf hm) i
  rw [hv'] at hrecord
  obtain ⟨m', hm', hof⟩ := exists_of_rel_some hrecord
  obtain ⟨exact', hchild⟩ := getElem?_children_placed_inside origin exact hv' hm'
  obtain rfl : p = _ := Option.some.inj (hp.symm.trans hchild)
  exact ⟨_, exact', v', m', hof, hm', hchild, fun axis => by cases axis <;> rfl, hplace⟩

/-! ## 2. Along the way to a node -/

/-- The offsets on the way to a position, before they are rounded. -/
def offsets (records : Memo) (path : List Nat) (axis : Axis) : List Float32 :=
  (trail Memo.children records path).map fun m => m.place.offset axis

/-- Half a pixel for every node on the way to a position, and what the sums of their offsets lose
where 24 bits do not hold them. -/
def allowance (layout : Placement) (path : List Nat) (axis : Axis) : ℚ :=
  ((trail Placement.children layout path).map fun p =>
    1 / 2 + sumLoss (value (p.frame.start axis))).sum

/-- Around a node at a finite position there are only nodes at finite positions. -/
theorem isFinite_coordinate_of_descend (hm : memo.IsOf v)
    (h : descend Placement.children (placed origin exact v memo) path = some place)
    (hfinite : (place.frame.start axis).isFinite) : (origin.coordinate axis).isFinite := by
  induction path generalizing origin exact v memo with
  | nil =>
    cases h
    rw [start_frame_placed] at hfinite
    exact (Number.isFinite_of_add hfinite).1
  | cons i path ih =>
    obtain ⟨origin', exact', v', m', hof, -, -, horigin, hplace⟩ :=
      exists_child_of_descend_placed hm h
    have hparent := ih hof hplace
    rw [horigin, start_frame_placed] at hparent
    exact (Number.isFinite_of_add hparent).1

/-- The way adds up: one step loses what its own rounding and its own sum lose. -/
theorem start_near (hm : memo.IsOf v)
    (h : descend Placement.children (placed origin exact v memo) path = some place)
    (hfinite : (place.frame.start axis).isFinite)
    (horigin : ∃ n : ℤ, value (origin.coordinate axis) = n) :
    (∀ o ∈ offsets memo path axis, o.isFinite) ∧
      |value (place.frame.start axis) -
          (value (origin.coordinate axis) + ((offsets memo path axis).map value).sum)| ≤
        allowance (placed origin exact v memo) path axis := by
  obtain ⟨n, hn⟩ := horigin
  induction path generalizing origin exact v memo n with
  | nil =>
    cases h
    rw [start_frame_placed] at hfinite
    obtain ⟨hoffset, -, hnear⟩ := Number.value_add_round hn hfinite
    simp only [offsets, allowance, trail, List.map_cons, List.map_nil, List.sum_singleton,
      List.forall_mem_singleton, start_frame_placed]
    exact ⟨hoffset, hnear⟩
  | cons i path ih =>
    obtain ⟨origin', exact', v', m', hof, hm', hchild, horigin, hplace⟩ :=
      exists_child_of_descend_placed hm h
    have hparent := isFinite_coordinate_of_descend hof hplace hfinite
    rw [horigin, start_frame_placed] at hparent
    obtain ⟨hoffset, ⟨k, hk⟩, hstep⟩ := Number.value_add_round hn hparent
    rw [← start_frame_placed origin exact v] at hk hstep
    obtain ⟨hoffsets, hrest⟩ := ih hof hplace k (by rw [horigin, hk])
    simp only [offsets, allowance, trail_cons hm', trail_cons hchild, List.map_cons,
      List.sum_cons, List.forall_mem_cons]
    refine ⟨⟨hoffset, hoffsets⟩, ?_⟩
    rw [horigin] at hrest
    -- the way splits where this frame starts
    have hsplit (here there start offset rest : ℚ) :
        there - (start + (offset + rest)) = here - (start + offset) + (there - (here + rest)) := by
      ring
    rw [hsplit (value ((placed origin exact v memo).frame.start axis))]
    exact (abs_add_le _ _).trans (add_le_add hstep hrest)

/-- As long as 24 bits hold the positions, only the offsets are rounded. -/
theorem allowance_of_small {layout : Placement}
    (h : descend Placement.children layout path = some place)
    (hsmall : ∀ p ∈ trail Placement.children layout path, |value (p.frame.start axis)| < 2 ^ 24) :
    allowance layout path axis = (path.length + 1) / 2 := by
  have hhalves := List.map_congr_left (f := fun p : Placement =>
      1 / 2 + sumLoss (value (p.frame.start axis))) (g := fun _ => (1 / 2 : ℚ))
    fun p hp => by rw [Number.sumLoss_of_small (hsmall p hp), add_zero]
  rw [allowance, hhalves, List.map_const', List.sum_replicate, length_trail h, nsmul_eq_mul]
  push_cast
  ring

end Layout

/-! ## 3. A card -/

/-- There is an offset for the node itself and for each one around it.  At a finite position all of
them are finite, and the position is their sum, but for half a pixel from each and what the sums of
large numbers lose.  Nothing more is lost where 24 bits hold the positions on the way. -/
theorem Visual.start_near_offsets (v : Visual) (room : Available) (measure : Measurer)
    {path : List Nat} {place : Placement} {axis : Axis}
    (h : descend Placement.children (v.placement room measure) path = some place)
    (hfinite : (place.frame.start axis).isFinite) :
    let layout := v.placement room measure
    let offsets := Layout.offsets ((Layout.Item.ofVisual .column v).arranged room measure) path axis
    offsets.length = path.length + 1 ∧ (∀ o ∈ offsets, o.isFinite) ∧
      |value (place.frame.start axis) - (offsets.map value).sum| ≤
        Layout.allowance layout path axis ∧
      ((∀ p ∈ trail Placement.children layout path, |value (p.frame.start axis)| < 2 ^ 24) →
        |value (place.frame.start axis) - (offsets.map value).sum| ≤ (path.length + 1) / 2) := by
  extract_lets layout offsets
  have hrecords := Layout.isOf_arranged v room measure
  have horigin : value ((⟨0, 0⟩ : Point).coordinate axis) = 0 := by cases axis <;> rfl
  obtain ⟨hoffsets, hnear⟩ := Layout.start_near hrecords h hfinite ⟨0, by rw [horigin]; rfl⟩
  rw [horigin, zero_add] at hnear
  refine ⟨?_, hoffsets, hnear, fun hsmall => ?_⟩
  · have hplaced : Layout.PlacedFrom v layout := ⟨_, _, _, rfl⟩
    have hvisual := isSome_eq_of_rel
      (descend_rel (fun _ _ h => Layout.forall₂_placedFrom h) hplaced path)
    have hrecord := isSome_eq_of_rel
      (descend_rel (fun _ _ h => Layout.forall₂_isOf h) hrecords path)
    obtain ⟨m, hm⟩ := Option.isSome_iff_exists.mp
      (hrecord.symm.trans (hvisual.trans (by rw [h]; rfl)))
    exact (List.length_map _).trans (length_trail hm)
  · exact hnear.trans_eq (Layout.allowance_of_small h hsmall)

/-- A view half a pixel from the left of the one around it. -/
def indentedView (children : List Node) : Node :=
  .mk ⟨.view, ⟨[("marginLeft", .number (.real 0.5))]⟩, none, none, none, none, none⟩ children

/-- Three of them in one another. -/
def threeIndented : Visual :=
  let nested := indentedView [indentedView [indentedView []]]
  (Template.mk nested).render ⟨{}, Estimate.measure {}, fun _ => .pending⟩

theorem offsets_threeIndented :
    Layout.offsets ((Layout.Item.ofVisual .column threeIndented).arranged ⟨375, none⟩
      (Estimate.measure {})) [0, 0] .horizontal = [0.5, 0.5, 0.5] := by
  decide +kernel

theorem trail_threeIndented :
    (trail Placement.children (threeIndented.placement ⟨375, none⟩ (Estimate.measure {}))
      [0, 0]).map (fun p => p.frame.start .horizontal) = [1, 2, 3] := by
  decide +kernel

theorem start_threeIndented :
    (descend Placement.children (threeIndented.placement ⟨375, none⟩ (Estimate.measure {}))
      [0, 0]).map (fun p => p.frame.start .horizontal) = some 3 := by
  decide +kernel

/-- Three halves make three pixels. -/
theorem Visual.start_near_offsets_threeIndented :
    let offsets := Layout.offsets ((Layout.Item.ofVisual .column threeIndented).arranged
      ⟨375, none⟩ (Estimate.measure {})) [0, 0] .horizontal
    ∃ place, descend Placement.children
        (threeIndented.placement ⟨375, none⟩ (Estimate.measure {})) [0, 0] = some place ∧
      (place.frame.start .horizontal).isFinite ∧ offsets.length = 3 ∧
      |value (place.frame.start .horizontal) - (offsets.map value).sum| ≤ 3 / 2 := by
  intro offsets
  obtain ⟨place, hplace, hstart⟩ := Option.map_eq_some_iff.mp start_threeIndented
  have hfinite : (place.frame.start .horizontal).isFinite := by
    rw [hstart]
    rfl
  obtain ⟨hlength, -, -, hnear⟩ :=
    Visual.start_near_offsets threeIndented ⟨375, none⟩ (Estimate.measure {}) hplace hfinite
  refine ⟨place, hplace, hfinite, hlength, (hnear fun p hp => ?_).trans_eq (by norm_num)⟩
  have hmem : p.frame.start .horizontal ∈ ([1, 2, 3] : List Float32) :=
    trail_threeIndented ▸ List.mem_map_of_mem hp
  have hvalue {n : ℕ} (hn : n < 2 ^ 23) : |value (Float32.ofNat n)| < 2 ^ 24 := by
    rw [Number.value_ofNat hn, Nat.abs_cast]
    exact_mod_cast hn.trans (by norm_num)
  simp only [List.mem_cons, List.not_mem_nil, or_false] at hmem
  obtain hp | hp | hp := hmem <;> rw [hp] <;> exact hvalue (by norm_num)

theorem Visual.not_forall_start_near_offsets :
    ¬ ∀ (v : Visual) (room : Available) (measure : Measurer) (path : List Nat) (place : Placement)
      (axis : Axis), descend Placement.children (v.placement room measure) path = some place →
      (place.frame.start axis).isFinite →
      |value (place.frame.start axis) - ((Layout.offsets ((Layout.Item.ofVisual .column v).arranged
        room measure) path axis).map value).sum| ≤ 1 := by
  intro h
  obtain ⟨place, hplace, hstart⟩ := Option.map_eq_some_iff.mp start_threeIndented
  have hnear := h threeIndented ⟨375, none⟩ (Estimate.measure {}) [0, 0] place .horizontal hplace
    (by rw [hstart]; rfl)
  have hthree : value 3 = 3 := Number.value_ofNat (n := 3) (by norm_num)
  rw [hstart, hthree, offsets_threeIndented] at hnear
  norm_num [Number.value_half] at hnear

end ContentCard
