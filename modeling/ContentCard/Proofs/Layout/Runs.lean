import ContentCard.Proofs.Layout.Steps

/-!
# What a layout does with the records of its items

Of the steps of a layout (`Line.lay_step`, `Overlay.lay_step`) two things follow for containers and
then for all items: there is one record for every item, before the layout and after it; and a
container whose items have careful sizers is laid out as if they had the other ones, unless the
layout halts at one of them.
-/

namespace ContentCard.Layout

/-! ## 1. The records of a container's items -/

theorem Line.forall₂_size (style : ItemStyle) (axis : Axis) (justify : Justify) (align : Align)
    {children : List (ItemStyle × Sizer)} (r : Request) {memos : List Memo}
    {Ps : List (Memo → Prop)} (hc : List.Forall₂ (fun c P => c.2.Keeps P) children Ps)
    (hm : List.Forall₂ (fun m P => P m) memos Ps) :
    List.Forall₂ (fun m P => P m) (size style axis justify align children r memos).2 Ps := by
  have hmembers (f : Frame) : List.Forall₂ watch.Holds
      (children.zipWith (fun c memo => Member.of f align c.1 c.2 memo) memos) Ps :=
    forall₂_zipWith (fun _ _ _ hkeeps hholds => ⟨hkeeps, False.elim, hholds⟩) hc hm
  rw [size_eq]
  extract_lets f
  split
  · exact hm
  · exact (lay_step f r).holds (hmembers f)

theorem Overlay.forall₂_size (style : ItemStyle) (align : Sides Align)
    {children : List (ItemStyle × Sizer)} (r : Request) {memos : List Memo}
    {Ps : List (Memo → Prop)}
    (hc : List.Forall₂ (fun c P => c.2.Keeps P ∧ Memo.StaysHalting P) children Ps)
    (hm : List.Forall₂ (fun m P => P m) memos Ps) :
    List.Forall₂ (fun m P => P m) (size style align children r memos).2 Ps := by
  have hmembers : List.Forall₂ watch.Holds
      (children.zipWith (fun c memo => Member.of align c.1 c.2 memo) memos) Ps :=
    forall₂_zipWith (fun _ _ _ hkeeps hholds => ⟨hkeeps.1, fun _ => hkeeps.2, hholds⟩) hc hm
  exact (lay_step style r).holds hmembers

theorem leafSizer_advances (style : ItemStyle) (content : Content) (shape : Memo) :
    (leafSizer style content).Advances shape := fun _ m _ => m.continues_refl

theorem containerSizer_advances (style : ItemStyle) (flow : Flow)
    {children : List (ItemStyle × Sizer)} {shapes : List Memo}
    (hc : List.Forall₂ (fun c shape => c.2.Advances shape) children shapes) :
    (containerSizer style flow children).Advances (.mk .empty .origin shapes) := by
  intro r m hm
  obtain ⟨cache, place, memos⟩ := m
  have hshapes := Memo.hasShape_mk_iff.mp hm
  -- each child goes on with the record that it has now
  have hkeeps : List.Forall₂ (fun c P => c.2.Keeps P ∧ Memo.StaysHalting P) children
      (memos.map fun m x => x.Continues m) := by
    rw [List.forall₂_map_right_iff]
    exact forall₂_trans (fun c shape m hc hm => ⟨hc.keeps hm, m.staysHalting_continues⟩) hc
      hshapes.flip
  have hholds : List.Forall₂ (fun m (P : Memo → Prop) => P m) memos
      (memos.map fun m x => x.Continues m) :=
    List.forall₂_map_right_iff.mpr (List.forall₂_same.mpr fun m _ => m.continues_refl)
  have hcontinues {memos' : List Memo}
      (h : List.Forall₂ (fun m (P : Memo → Prop) => P m) memos'
        (memos.map fun m x => x.Continues m)) :
      (Memo.mk cache place memos').Continues (.mk cache place memos) := by
    rw [List.forall₂_map_right_iff] at h
    exact Memo.continues_mk h
  unfold containerSizer
  split
  · exact Memo.continues_refl _
  · cases flow with
    | line axis justify align =>
      exact hcontinues (Line.forall₂_size style axis justify align r
        (hkeeps.imp fun _ _ h => h.1) hholds)
    | overlay align => exact hcontinues (Overlay.forall₂_size style align r hkeeps hholds)

/-! ## 2. Careful items in a container -/

/-- An item with two sizers, of which the first heeds the second. -/
structure Heeding where
  style : ItemStyle
  careful : Sizer
  sizer : Sizer
  shape : Memo
  heeds : careful.Heeds sizer shape

namespace Heeding

def carefulOnes (hs : List Heeding) : List (ItemStyle × Sizer) :=
  hs.map fun h => (h.style, h.careful)

def others (hs : List Heeding) : List (ItemStyle × Sizer) := hs.map fun h => (h.style, h.sizer)

def shapes (hs : List Heeding) : List Memo := hs.map Heeding.shape

end Heeding

open Heeding

variable {hs : List Heeding} {memos : List Memo}

/-- The members of a container are alike with either sizer. -/
theorem forall₂_made {β : Type} {R : β → β → Prop} (make : ItemStyle → Sizer → Memo → β)
    (hmake : ∀ (h : Heeding) memo, memo.HasShape h.shape →
      R (make h.style h.careful memo) (make h.style h.sizer memo))
    (hm : List.Forall₂ Memo.HasShape memos (shapes hs)) :
    List.Forall₂ R ((carefulOnes hs).zipWith (fun c memo => make c.1 c.2 memo) memos)
      ((others hs).zipWith (fun c memo => make c.1 c.2 memo) memos) := by
  induction hs generalizing memos with
  | nil => exact .nil
  | cons h hs ih =>
    cases hm with
    | cons hm hms => exact .cons (hmake h _ hm) (ih hms)

theorem any_isHalted_of_stuck (h : Memo.watch.list.Stuck memos) : memos.any Memo.isHalted := by
  obtain ⟨Ps, hholds, P, hP, hhalting⟩ := h
  -- along the properties, up to one that only halted records have
  induction hholds with
  | nil => nomatch hP
  | cons hm _ ih =>
    rw [List.any_cons, Bool.or_eq_true]
    cases hP with
    | head => exact .inl (hhalting _ hm)
    | tail _ hP => exact .inr (ih hP)

/-- A layout that does not get stuck is the same with the other sizers. -/
theorem eq_of_alike {α : Type} {x y : α × List Memo}
    (h : Memo.watch.list.Stuck x.2 ∨ x.1 = y.1 ∧ List.Forall₂ Memo.watch.Alike x.2 y.2)
    (hruns : x.2.any Memo.isHalted = false) : x = y := by
  obtain hstuck | ⟨hsize, hmemos⟩ := h
  · rw [any_isHalted_of_stuck hstuck] at hruns
    nomatch hruns
  · exact Prod.ext hsize (List.forall₂_eq_eq_eq ▸ hmemos)

theorem Line.size_careful (style : ItemStyle) (axis : Axis) (justify : Justify) (align : Align)
    (r : Request) (hm : List.Forall₂ Memo.HasShape memos (shapes hs))
    (hruns : (size style axis justify align (carefulOnes hs) r memos).2.any Memo.isHalted = false) :
    size style axis justify align (carefulOnes hs) r memos =
      size style axis justify align (others hs) r memos := by
  have hmembers (f : Frame) := forall₂_made (R := watch.Alike) (Member.of f align)
    (fun h _ hm => ⟨rfl, h.shape, h.heeds, hm⟩) hm
  revert hruns
  rw [size_eq, size_eq]
  extract_lets f
  split
  · exact fun _ => rfl
  · exact eq_of_alike ((lay_step f r).alike (hmembers f))

theorem Overlay.size_careful (style : ItemStyle) (align : Sides Align) (r : Request)
    (hm : List.Forall₂ Memo.HasShape memos (shapes hs))
    (hruns : (size style align (carefulOnes hs) r memos).2.any Memo.isHalted = false) :
    size style align (carefulOnes hs) r memos = size style align (others hs) r memos := by
  have hmembers := forall₂_made (R := watch.Alike) (Member.of align)
    (fun h _ hm => ⟨rfl, h.shape, h.heeds, hm⟩) hm
  exact eq_of_alike ((lay_step style r).alike hmembers) hruns

theorem containerSizer_heeds (style : ItemStyle) (flow : Flow) (hs : List Heeding) :
    (containerSizer style flow (carefulOnes hs)).Heeds (containerSizer style flow (others hs))
      (.mk .empty .origin (shapes hs)) where
  advances := by
    refine containerSizer_advances style flow ?_
    rw [carefulOnes, shapes, List.forall₂_map_left_iff, List.forall₂_map_right_iff]
    exact List.forall₂_same.mpr fun h _ => h.heeds.advances
  eq_of_runs r m hm hruns := by
    obtain ⟨cache, place, memos⟩ := m
    have hm := Memo.hasShape_mk_iff.mp hm
    have hempty : (others hs).isEmpty = (carefulOnes hs).isEmpty := by
      rw [others, carefulOnes, List.isEmpty_map, List.isEmpty_map]
    unfold containerSizer at hruns ⊢
    rw [hempty]
    -- a container without children is a leaf and asks nobody
    split
    · rfl
    · rename_i hsome
      rw [if_neg hsome] at hruns
      have hmemos := (Bool.or_eq_false_iff.mp ((Memo.isHalted_mk _ _ _).symm.trans hruns)).2
      cases flow with
      | line axis justify align =>
        exact congrArg (fun x : _ × _ => (x.1, Memo.mk cache place x.2))
          (Line.size_careful style axis justify align r hm hmemos)
      | overlay align =>
        exact congrArg (fun x : _ × _ => (x.1, Memo.mk cache place x.2))
          (Overlay.size_careful style align r hm hmemos)

/-! ## 3. Whole items -/

theorem Item.sizers_eq_map (measure : Measurer) (items : List Item) :
    Item.sizers measure items = items.map fun c => (c.style, c.sizer measure) := by
  induction items with
  | nil => rfl
  | cons item rest ih => rw [sizers, ih, List.map_cons]

theorem Item.memos_eq_map (items : List Item) : Item.memos items = items.map Item.memo := by
  induction items with
  | nil => rfl
  | cons item rest ih => rw [Item.memos, ih, List.map_cons]

mutual

/-- However an item is asked, there is one record for it and one for every item inside, and where
the layout has halted, it does not go on. -/
theorem Item.sizer_advances (measure : Measurer) (item : Item) :
    (item.sizer measure).Advances item.memo := by
  cases item with
  | container style flow children =>
    rw [Item.sizer, Item.memo]
    exact (containerSizer_advances style flow (Item.sizers_advance measure children)).remembering
  | text style run => exact (leafSizer_advances _ _ _).remembering
  | solid style => exact (leafSizer_advances _ _ _).remembering

theorem Item.sizers_advance (measure : Measurer) (items : List Item) :
    List.Forall₂ (fun c shape => c.2.Advances shape) (Item.sizers measure items)
      (Item.memos items) := by
  cases items with
  | nil => exact .nil
  | cons item rest =>
    rw [Item.sizers, Item.memos]
    exact .cons (Item.sizer_advances measure item) (Item.sizers_advance measure rest)

end

mutual

/-- Before the layout the records are empty. -/
theorem Item.runs_memo (item : Item) : item.memo.Runs item.memo := by
  cases item with
  | container style flow children =>
    rw [Item.memo]
    exact Memo.runs_mk_iff.mpr ⟨rfl, Item.forall₂_runs_memos children⟩
  | text style run => exact ⟨rfl, rfl⟩
  | solid style => exact ⟨rfl, rfl⟩

theorem Item.forall₂_runs_memos (items : List Item) :
    List.Forall₂ Memo.Runs (Item.memos items) (Item.memos items) := by
  cases items with
  | nil => exact .nil
  | cons item rest =>
    rw [Item.memos]
    exact .cons (Item.runs_memo item) (Item.forall₂_runs_memos rest)

end

/-- After the layout there is one record for the item and one for every item inside. -/
theorem Item.hasShape_arranged (item : Item) (room : Available) (measure : Measurer) :
    (item.arranged room measure).HasShape item.memo := by
  unfold arranged
  extract_lets surface request
  have hsurface := (Item.runs_memo surface).2
  have h := (Item.sizer_advances measure surface request surface.memo hsurface).hasShape_of hsurface
  split
  rename_i size memo hs
  have h : memo.HasShape surface.memo := of_snd (P := (·.HasShape surface.memo)) hs h
  obtain ⟨cache, place, memos⟩ := memo
  cases Memo.hasShape_mk_iff.mp h with
  | cons hm _ => exact hm

end ContentCard.Layout
