import ContentCard.Proofs.Layout.Growth
import ContentCard.Proofs.Layout.Runs

/-!
# Layouts without underflow

Where the length of a line is left to its items, an item grows by a share of what its content needs,
times its growth.  Both roundings take the growth away again, unless the share is subnormal.  The
careful sizer of an item (`Item.carefulSizer`) looks out for that in one line inside the item: it
answers like the item's own sizer, but halts the layout where a share is subnormal.  When the growth
of that line's items is multiplied by a power of two, the careful sizer stays the same.
-/

namespace ContentCard

namespace Layout

/-! ## 1. Careful sizers -/

/-- The sizer of an item that halts the layout when, in the line at the position, one of the items
strains, with its growth or with `2 ^ k` times its growth. -/
def Item.carefulSizer (k : ℤ) (measure : Measurer) : List ℕ → Item → Sizer
  | [], .container style (.line axis justify align) children =>
    let children := Item.sizers measure children
    .remembering fun r m =>
      if Line.strains k style axis justify align children r m.children then (⟨0, 0⟩, m.halt)
      else containerSizer style (.line axis justify align) children r m
  | i :: path, .container style flow children =>
    .remembering (containerSizer style flow (children.mapIdx fun j c =>
      (c.style, if j = i then c.carefulSizer k measure path else c.sizer measure)))
  | _, item => item.sizer measure

variable {k : ℤ} {measure : Measurer}

/-- Unless it halts, the careful sizer answers like the item's own one. -/
theorem Item.carefulSizer_heeds (k : ℤ) (measure : Measurer) (path : List ℕ) (item : Item) :
    (item.carefulSizer k measure path).Heeds (item.sizer measure) item.memo := by
  induction path generalizing item with
  | nil =>
    cases item with
    | text | solid => exact (Item.sizer_advances measure _).heeds
    | container style flow children =>
      cases flow with
      | overlay => exact (Item.sizer_advances measure _).heeds
      | line axis justify align =>
        have hadvances := containerSizer_advances style (.line axis justify align)
          (Item.sizers_advance measure children)
        rw [carefulSizer, sizer, memo]
        refine Sizer.Heeds.remembering ⟨fun r m hm => ?_, fun r m hm hruns => ?_⟩
        · split
          · exact m.halt_continues
          · exact hadvances r m hm
        -- it has not halted, so nothing strains
        · revert hruns
          split
          · intro hruns
            rw [Memo.isHalted_halt] at hruns
            nomatch hruns
          · exact fun _ => rfl
  | cons i path ih =>
    cases item with
    | text | solid => exact (Item.sizer_advances measure _).heeds
    | container style flow children =>
      -- one child is careful, and each of the others heeds itself
      let heeding (j : ℕ) (c : Item) : Heeding :=
        { style := c.style
          careful := if j = i then c.carefulSizer k measure path else c.sizer measure
          sizer := c.sizer measure
          shape := c.memo
          heeds := by
            split
            · exact ih c
            · exact (Item.sizer_advances measure c).heeds }
      have h := containerSizer_heeds style flow (children.mapIdx heeding)
      have hcareful : Heeding.carefulOnes (children.mapIdx heeding) = children.mapIdx fun j c =>
          (c.style, if j = i then c.carefulSizer k measure path else c.sizer measure) := by
        refine List.ext_getElem? fun j => ?_
        rw [Heeding.carefulOnes, List.getElem?_map, List.getElem?_mapIdx, List.getElem?_mapIdx,
          Option.map_map]
        rfl
      have hmap {β : Type} (read : Heeding → β) (read' : Item → β)
          (hread : ∀ j c, read (heeding j c) = read' c) :
          (children.mapIdx heeding).map read = children.map read' := by
        refine List.ext_getElem? fun j => ?_
        rw [List.getElem?_map, List.getElem?_mapIdx, List.getElem?_map, Option.map_map]
        exact congrArg (Option.map · _) (funext (hread j))
      rw [hcareful, Heeding.others, Heeding.shapes,
        hmap _ (fun c => (c.style, c.sizer measure)) fun _ _ => rfl,
        hmap _ Item.memo fun _ _ => rfl, ← Item.sizers_eq_map, ← Item.memos_eq_map] at h
      rw [carefulSizer, sizer, memo]
      exact h.remembering

/-- The surface with a card's item on it. -/
def Item.onSurface (item : Item) (room : Available) : Item :=
  .container (surfaceStyle room) (.line .vertical .start .start) [item]

/-- What the surface is asked for. -/
def surfaceRequest (room : Available) : Request where
  known := noSides
  parent := ⟨some room.width, room.height⟩
  space := ⟨.definite room.width, .ofKnown room.height .maxContent⟩
  inherent := true
  final := true

/-- The surface's record after the layout. -/
def Item.surfaceRecord (item : Item) (room : Available) (measure : Measurer) : Memo :=
  ((item.onSurface room).sizer measure (surfaceRequest room) (item.onSurface room).memo).2

/-- The surface's record after a layout that halts where, in the line at the position in the item,
one of the items strains. -/
def Item.carefulRecord (k : ℤ) (item : Item) (path : List ℕ) (room : Available)
    (measure : Measurer) : Memo :=
  ((item.onSurface room).carefulSizer k measure (0 :: path) (surfaceRequest room)
    (item.onSurface room).memo).2

theorem Item.arranged_eq (item : Item) (room : Available) (measure : Measurer) :
    item.arranged room measure = (item.surfaceRecord room measure).children.headD .fresh := rfl

theorem cache_containerSizer (style : ItemStyle) (flow : Flow)
    (children : List (ItemStyle × Sizer)) (r : Request) (m : Memo) :
    (containerSizer style flow children r m).2.cache = m.cache := by
  unfold containerSizer
  split <;> rfl

theorem halted_remembering (style : ItemStyle) (flow : Flow) (children : List (ItemStyle × Sizer))
    (r : Request) (m : Memo) :
    (Sizer.remembering (containerSizer style flow children) r m).2.cache.halted =
      m.cache.halted := by
  rw [Sizer.remembering]
  split
  · rfl
  · rw [← cache_containerSizer style flow children r m]
    exact Cache.halted_store ..

/-- The surface itself does not halt. -/
theorem Item.isHalted_surfaceRecord (item : Item) (room : Available) (measure : Measurer) :
    (item.surfaceRecord room measure).isHalted = (item.arranged room measure).isHalted := by
  have hsurface := (Item.runs_memo (item.onSurface room)).2
  have hshape := (Item.sizer_advances measure (item.onSurface room) (surfaceRequest room)
    (item.onSurface room).memo hsurface).hasShape_of hsurface
  have hcache : (item.surfaceRecord room measure).cache.halted = false :=
    halted_remembering ..
  rw [Item.arranged_eq]
  change (item.surfaceRecord room measure).HasShape _ at hshape
  generalize item.surfaceRecord room measure = m at hshape hcache ⊢
  obtain ⟨cache, place, memos⟩ := m
  -- there is one record below that of the surface
  cases Memo.hasShape_mk_iff.mp hshape with
  | cons hm hnil =>
    cases hnil
    change cache.halted = false at hcache
    rw [Memo.isHalted_mk, hcache, List.any_cons, List.any_nil, Bool.or_false, Bool.false_or]
    rfl

theorem Item.carefulRecord_eq {item : Item} {path : List ℕ} {room : Available}
    (h : (item.carefulRecord k path room measure).isHalted = false) :
    item.carefulRecord k path room measure = item.surfaceRecord room measure :=
  have hheeds := Item.carefulSizer_heeds k measure (0 :: path) (item.onSurface room)
  congrArg Prod.snd (hheeds.eq_of_runs _ _ (Item.runs_memo _).2 h)

end Layout

/-- The layout comes to its end, and on the way no item of the container at the position has a
subnormal share, with its growth or with `2 ^ k` times its growth. -/
def Visual.NoUnderflowAt (k : ℤ) (v : Visual) (path : List ℕ) (room : Available)
    (measure : Measurer) : Prop :=
  ((Layout.Item.ofVisual .column v).carefulRecord k path room measure).isHalted = false

namespace Layout

/-! ## 2. Multiplied growth -/

open Number (Proportional)

variable {k : ℤ} {measure : Measurer}

/-- The same items, with the growth of all multiplied by one power of two. -/
structure Item.AllRegrown (k : ℤ) (items items' : List Item) : Prop where
  members : List.Forall₂ (fun c c' => ∃ g, Proportional k c.style.grow g ∧ c' = c.withGrow g) items
    items'
  isFinite_left : (Number.sum (items.map (·.style.grow))).isFinite
  isFinite_right : (Number.sum (items'.map (·.style.grow))).isFinite

theorem Item.AllRegrown.sizers {items items' : List Item} (h : Item.AllRegrown k items items')
    (measure : Measurer) :
    Line.ChildrenRegrown k (Item.sizers measure items) (Item.sizers measure items') := by
  obtain ⟨hitems, hleft, hright⟩ := h
  rw [Item.sizers_eq_map, Item.sizers_eq_map]
  refine ⟨?_, by rwa [List.map_map], by rwa [List.map_map]⟩
  rw [List.forall₂_map_left_iff, List.forall₂_map_right_iff]
  refine hitems.imp ?_
  rintro c _ ⟨g, hg, rfl⟩
  exact ⟨g, hg, by rw [Item.style_withGrow, Item.sizer_withGrow]⟩

theorem Sizer.remembering_congr {compute compute' : Sizer} {r : Request} {m : Memo}
    (h : compute r m = compute' r m) :
    Sizer.remembering compute r m = Sizer.remembering compute' r m := by
  rw [remembering, remembering, h]

/-- The careful sizer of a line stays the same. -/
theorem Item.carefulSizer_regrown {items items' : List Item} (h : Item.AllRegrown k items items')
    (style : ItemStyle) (axis : Axis) (justify : Justify) (align : Align) :
    (Item.container style (.line axis justify align) items').carefulSizer (-k) measure [] =
      (Item.container style (.line axis justify align) items).carefulSizer k measure [] := by
  have hempty : (Item.sizers measure items').isEmpty = (Item.sizers measure items).isEmpty := by
    cases h.members <;> rfl
  funext r m
  rw [carefulSizer, carefulSizer]
  refine Sizer.remembering_congr ?_
  -- both look out for the same shares, before and after
  rw [Line.strains_regrown (h.sizers measure)]
  split
  · rfl
  · rename_i hstrains
    rw [containerSizer, containerSizer, hempty]
    simp only [Line.size_regrown (h.sizers measure) (Bool.eq_false_iff.mpr hstrains)]

/-- The item behind others is the only one at its position. -/
theorem mapIdx_of_length (careful sizer : Item → Sizer) (items : List Item) :
    (items.mapIdx fun j c => (c.style, if j = items.length then careful c else sizer c)) =
      items.map fun c => (c.style, sizer c) := by
  refine List.ext_getElem (by rw [List.length_mapIdx, List.length_map]) fun j hj _ => ?_
  rw [List.length_mapIdx] at hj
  rw [List.getElem_mapIdx, List.getElem_map, if_neg hj.ne]

theorem Item.carefulSizer_congr {c c' : Item} {k' : ℤ} {path : List ℕ} (hstyle : c'.style = c.style)
    (h : c'.carefulSizer k' measure path = c.carefulSizer k measure path) (style : ItemStyle)
    (flow : Flow) (before after : List Item) :
    (Item.container style flow (before ++ c' :: after)).carefulSizer k' measure
        (before.length :: path) =
      (Item.container style flow (before ++ c :: after)).carefulSizer k measure
        (before.length :: path) := by
  simp only [carefulSizer, List.mapIdx_append, List.mapIdx_cons, mapIdx_of_length]
  simp [hstyle, h]

end Layout

end ContentCard
