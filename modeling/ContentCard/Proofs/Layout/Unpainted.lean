import ContentCard.Card

/-!
# Visuals without paint

What is left of a visual without colours, corner radii, pictures and actions (`Visual.unpainted`)
is all that the layout reads of it: both have the same placement.
-/

namespace ContentCard

def Border.unpainted (b : Border) : Border := ⟨b.width, .transparent, 0⟩

def Box.unpainted (b : Box) : Box := { b with background := none, border := b.border.unpainted }

def Lettering.unpainted (t : Lettering) : Lettering := { t with color := none }

namespace Visual

mutual

/-- The visual without colours, corner radii, pictures and actions. -/
def unpainted : Visual → Visual
  | container box a children => container box.unpainted a (unpaintedAll children)
  | text box t => text box.unpainted t.unpainted
  | image box _ => image box.unpainted ⟨none, .fit, .pending⟩
  | button box c => button box.unpainted ⟨c.label.unpainted, ⟨"", none⟩⟩
  | placeholder box n => placeholder box.unpainted n

def unpaintedAll : List Visual → List Visual
  | [] => []
  | v :: rest => v.unpainted :: unpaintedAll rest

end

end Visual

namespace Layout

theorem ofBox_unpainted (box : Box) (parent : Direction) (wraps : Bool) :
    ItemStyle.ofBox box.unpainted parent wraps = ItemStyle.ofBox box parent wraps := rfl

mutual

theorem ofVisual_unpainted (parent : Direction) (v : Visual) :
    Item.ofVisual parent v.unpainted = Item.ofVisual parent v := by
  cases v with
  | container box a children =>
    rw [Visual.unpainted, Item.ofVisual, Item.ofVisual, ofBox_unpainted,
      ofVisuals_unpaintedAll a.direction children]
  | text box t =>
    rw [Visual.unpainted, Item.ofVisual, Item.ofVisual, ofBox_unpainted, ofBox_unpainted]
    rfl
  | image box c => rw [Visual.unpainted, Item.ofVisual, Item.ofVisual, ofBox_unpainted]
  | button box c => rw [Visual.unpainted, Item.ofVisual, Item.ofVisual, ofBox_unpainted]
  | placeholder box n => rw [Visual.unpainted, Item.ofVisual, Item.ofVisual, ofBox_unpainted]

theorem ofVisuals_unpaintedAll (parent : Direction) (vs : List Visual) :
    Item.ofVisuals parent (Visual.unpaintedAll vs) = Item.ofVisuals parent vs := by
  cases vs with
  | nil => rfl
  | cons v rest =>
    rw [Visual.unpaintedAll, Item.ofVisuals, Item.ofVisuals, ofVisual_unpainted parent v,
      ofVisuals_unpaintedAll parent rest]

end

mutual

theorem placed_unpainted (origin exact : Point) (v : Visual) (memo : Memo) :
    placed origin exact v.unpainted memo = placed origin exact v memo := by
  cases v with
  | container box a children =>
    rw [Visual.unpainted, placed, placed, placedAll_unpaintedAll _ _ children]
    rfl
  | text | image | button | placeholder => rfl

theorem placedAll_unpaintedAll (origin exact : Point) (vs : List Visual) (memos : List Memo) :
    placedAll origin exact (Visual.unpaintedAll vs) memos = placedAll origin exact vs memos := by
  cases vs with
  | nil => rfl
  | cons v rest =>
    rw [Visual.unpaintedAll, placedAll, placedAll, placed_unpainted _ _ v,
      placedAll_unpaintedAll _ _ rest]

end

end Layout

/-- The layout of a visual is the layout of what is left of it without paint. -/
theorem Visual.placement_unpainted (v : Visual) (room : Available) (measure : Measurer) :
    v.unpainted.placement room measure = v.placement room measure := by
  rw [Visual.placement, Visual.placement, Layout.ofVisual_unpainted, Layout.placed_unpainted]

end ContentCard
