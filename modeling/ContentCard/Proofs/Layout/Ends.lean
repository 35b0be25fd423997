import ContentCard.Proofs.Layout.Runs
import ContentCard.Proofs.Visual.Children

/-!
# Layouts that come to their end

The layout halts where it shares out room between items on top of each other, and nowhere else.  So
a card comes to the end of its layout if none of its containers shows children on top of each
other.
-/

namespace ContentCard

namespace Layout

/-! ## 1. Sizers that come to an end -/

/-- However it is asked, the sizer comes to an end. -/
def Sizer.Ends (sizer : Sizer) (shape : Memo) : Prop :=
  ∀ r m, m.Runs shape → (sizer r m).2.Runs shape

theorem Sizer.Ends.keeps {sizer : Sizer} {shape : Memo} (h : sizer.Ends shape) :
    sizer.Keeps (·.Runs shape) where
  ask := h
  putAt m p hm := by
    refine ⟨?_, (Memo.hasShape_mk_children _ _).mpr hm.2⟩
    rw [Memo.putAt, Memo.isHalted_mk, ← Memo.isHalted_eq]
    exact hm.1

theorem Sizer.Ends.remembering {sizer : Sizer} {shape : Memo} (h : sizer.Ends shape) :
    (Sizer.remembering sizer).Ends shape := by
  intro r m hm
  rw [Sizer.remembering]
  split
  · exact hm
  · obtain ⟨hends, hshape⟩ := h r m hm
    refine ⟨?_, (Memo.hasShape_mk_children _ _).mpr hshape⟩
    rwa [Memo.isHalted_mk, Cache.halted_store, ← Memo.isHalted_eq]

theorem leafSizer_ends (style : ItemStyle) (content : Content) (shape : Memo) :
    (leafSizer style content).Ends shape := fun _ _ hm => hm

theorem containerSizer_ends_of_line (style : ItemStyle) (axis : Axis) (justify : Justify)
    (align : Align) {children : List (ItemStyle × Sizer)} {shapes : List Memo}
    (hc : List.Forall₂ (fun c shape => c.2.Ends shape) children shapes) :
    (containerSizer style (.line axis justify align) children).Ends
      (.mk .empty .origin shapes) := by
  intro r m hm
  obtain ⟨cache, place, memos⟩ := m
  obtain ⟨hcache, hmemos⟩ := Memo.runs_mk_iff.mp hm
  unfold containerSizer
  split
  · exact hm
  · have hkeeps : List.Forall₂ (fun c P => c.2.Keeps P) children
        (shapes.map fun shape x => x.Runs shape) :=
      List.forall₂_map_right_iff.mpr (hc.imp fun _ _ h => h.keeps)
    have h := Line.forall₂_size style axis justify align r hkeeps
      (List.forall₂_map_right_iff.mpr hmemos)
    rw [List.forall₂_map_right_iff] at h
    exact Memo.runs_mk_iff.mpr ⟨hcache, h⟩

/-! ## 2. Items in lines -/

mutual

/-- No items inside lie on top of each other. -/
def Item.InLines : Item → Prop
  | .container _ (.line _ _ _) children => Item.AllInLines children
  | .container _ (.overlay _) children => children = []
  | .text _ _ | .solid _ => True

def Item.AllInLines : List Item → Prop
  | [] => True
  | item :: rest => item.InLines ∧ Item.AllInLines rest

end

mutual

theorem Item.sizer_ends (measure : Measurer) {item : Item} (h : item.InLines) :
    (item.sizer measure).Ends item.memo := by
  cases item with
  | container style flow children =>
    rw [Item.sizer, Item.memo]
    cases flow with
    | line axis justify align =>
      exact (containerSizer_ends_of_line style axis justify align
        (Item.sizers_end measure h)).remembering
    -- without children it is a leaf
    | overlay align =>
      obtain rfl : children = [] := h
      exact (leafSizer_ends style emptyContent _).remembering
  | text style run => exact (leafSizer_ends _ _ _).remembering
  | solid style => exact (leafSizer_ends _ _ _).remembering

theorem Item.sizers_end (measure : Measurer) {items : List Item} (h : Item.AllInLines items) :
    List.Forall₂ (fun c shape => c.2.Ends shape) (Item.sizers measure items)
      (Item.memos items) := by
  cases items with
  | nil => exact .nil
  | cons item rest =>
    rw [Item.sizers, Item.memos]
    exact .cons (Item.sizer_ends measure h.1) (Item.sizers_end measure h.2)

end

theorem Item.isHalted_arranged {item : Item} (h : item.InLines) (room : Available)
    (measure : Measurer) : (item.arranged room measure).isHalted = false := by
  unfold arranged
  extract_lets surface request
  have hsurface : surface.InLines := ⟨h, trivial⟩
  have h := Item.sizer_ends measure hsurface request surface.memo (Item.runs_memo surface)
  split
  rename_i size memo hs
  have h : memo.Runs surface.memo := of_snd (P := (·.Runs surface.memo)) hs h
  obtain ⟨cache, place, memos⟩ := memo
  cases (Memo.runs_mk_iff.mp h).2 with
  | cons hm _ => exact hm.1

end Layout

/-! ## 3. Cards -/

namespace Visual

/-- The container shows children on top of each other. -/
def Overlays : Visual → Prop
  | container _ a (_ :: _) => a.direction = .overlay
  | _ => False

mutual

theorem inLines_ofVisual (parent : Direction) {v : Visual}
    (h : ∀ path w, descend children v path = some w → ¬w.Overlays) :
    (Layout.Item.ofVisual parent v).InLines := by
  cases v with
  | container box a vs =>
    -- a position in a child is one in the container, behind the child's index
    have hinside : Layout.Item.AllInLines (Layout.Item.ofVisuals a.direction vs) :=
      allInLines_ofVisuals a.direction fun i path v hv w hw => h (i :: path) w (by
        rw [descend, children, hv, Option.bind_some, hw])
    obtain ⟨direction, justify, align⟩ := a
    cases direction with
    | row | column => exact hinside
    | overlay =>
      cases vs with
      | nil => rfl
      | cons v rest => exact absurd rfl (h [] _ rfl)
  | text box t =>
    rw [Layout.Item.ofVisual]
    split <;> trivial
  | image | button | placeholder => trivial

theorem allInLines_ofVisuals (parent : Direction) {vs : List Visual}
    (h : ∀ (i : ℕ) path v, vs[i]? = some v → ∀ w, descend children v path = some w → ¬w.Overlays) :
    Layout.Item.AllInLines (Layout.Item.ofVisuals parent vs) := by
  cases vs with
  | nil => trivial
  | cons v rest =>
    exact ⟨inLines_ofVisual parent fun path => h 0 path v rfl,
      allInLines_ofVisuals parent fun i path v hv => h (i + 1) path v hv⟩

end

/-- The layout comes to its end if no container shows children on top of each other. -/
theorem layout?_of_not_overlays {v : Visual}
    (h : ∀ path w, descend children v path = some w → ¬w.Overlays) (room : Available)
    (measure : Measurer) : v.layout? room measure = some (v.placement room measure) := by
  have hends := Layout.Item.isHalted_arranged (inLines_ofVisual .column h) room measure
  rw [layout?, hends, if_neg Bool.false_ne_true]

end Visual

end ContentCard
