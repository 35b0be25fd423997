import ContentCard.Proofs.Layout.Careful
import ContentCard.Proofs.Visual.Children

/-!
# Rows below columns

A column that is asked for its size in a width that is settled, known or with definite room for it,
asks its items in settled widths only.  The layout of a card begins with a settled width, so a row
with nothing but columns around it is never asked for the width of its contents, and none of its
items can strain.
-/

namespace ContentCard

namespace Layout

/-! ## 1. Requests that settle a side -/

/-- The request leaves no doubt about a side: it is known, or there is definite room for it. -/
def Request.settles (r : Request) (axis : Axis) : Bool :=
  (r.known.get axis).isSome || (r.space.get axis).known.isSome

/-- The sizer where the side is settled, and no answer elsewhere. -/
def Sizer.guarded (axis : Axis) (sizer : Sizer) : Sizer := fun r m =>
  if r.settles axis then sizer r m else (⟨0, 0⟩, m)

theorem Space.isSome_known_mapDefinite (g : Float32 → Float32) (s : Space) :
    (s.mapDefinite g).known.isSome = s.known.isSome := by
  cases s <;> rfl

theorem Sides.get_along_other (axis : Axis) {α : Type} (main cross : α) :
    (Sides.along axis main cross).get axis.other = cross := by
  cases axis <;> rfl

theorem Sides.get_map (axis : Axis) {α β : Type} (g : α → β) (s : Sides α) :
    (s.map g).get axis = g (s.get axis) := by
  cases axis <;> rfl

theorem Sizer.guarded_congr {axis : Axis} {sizer sizer' : Sizer}
    (h : ∀ r m, r.settles axis → sizer r m = sizer' r m) :
    sizer.guarded axis = sizer'.guarded axis := by
  funext r m
  unfold guarded
  split
  · exact h r m ‹_›
  · rfl

/-! ## 2. Lines that are asked across a settled side

What a line asks of its items settles the side across the line, so nothing changes if they do not
answer other requests. -/

namespace Line

abbrev Member.guarded (axis : Axis) (m : Member) : Member := m.mapSizer (·.guarded axis)

theorem Member.ask_guarded {axis : Axis} {r : Request} (h : r.settles axis) (m : Member) :
    (m.guarded axis).ask r = ((m.ask r).1, (m.ask r).2.guarded axis) := by
  have hsizer : (m.guarded axis).sizer r m.memo = m.sizer r m.memo := if_pos h
  show Prod.mk ((m.guarded axis).sizer r m.memo).1
    { m.guarded axis with memo := ((m.guarded axis).sizer r m.memo).2 } = _
  rw [hsizer]
  rfl

namespace Frame

variable (f : Frame) {space : Sides Space}

section

variable (h : (space.get f.cross).known.isSome)

include h

theorem isSome_crossSpace (m : Member) : (f.crossSpace space m).known.isSome := by
  rw [crossSpace, Space.isSome_known_mapDefinite, Space.isSome_known_mapDefinite]
  exact h

theorem findBasis_guarded (m : Member) :
    f.findBasis space (m.guarded f.cross) = (f.findBasis space m).guarded f.cross := by
  have hask (main : Space) (m' : Member) :
      let r : Request := ⟨f.knownAcross (f.crossSpace space m) m,
        .along f.axis none (f.inner.get f.cross), .along f.axis main (f.crossSpace space m), false,
        false⟩
      (m'.guarded f.cross).ask r = ((m'.ask r).1, (m'.ask r).2.guarded f.cross) := by
    refine Member.ask_guarded ?_ m'
    show (_ || ((Sides.along f.axis main _).get f.axis.other).known.isSome) = true
    rw [Sides.get_along_other, f.isSome_crossSpace h, Bool.or_true]
  have hspace : f.crossSpace space (m.guarded f.cross) = f.crossSpace space m := rfl
  have hknown (s : Space) : f.knownAcross s (m.guarded f.cross) = f.knownAcross s m := rfl
  have hsize : (m.guarded f.cross).size = m.size := rfl
  have hbasis : (m.guarded f.cross).style = m.style := rfl
  have hmin (m : Member) : (m.guarded f.cross).min = m.min := rfl
  have hasked (r : Request) : (m.ask r).2.min = m.min := rfl
  cases hb : m.style.basis.or (m.size.get f.axis) <;> cases hl : m.min.get f.axis <;>
    simp only [findBasis, hspace, hknown, hbasis, hsize, hb, hl, hmin, hasked, hask] <;> rfl

theorem contribution_guarded (m : Member) :
    f.contribution space (m.guarded f.cross) =
      ((f.contribution space m).1, (f.contribution space m).2.guarded f.cross) := by
  have hask : let r := f.contributionRequest space m
      (m.guarded f.cross).ask r = ((m.ask r).1, (m.ask r).2.guarded f.cross) := by
    refine Member.ask_guarded ?_ m
    show (_ || ((space.set f.cross _).get f.cross).known.isSome) = true
    rw [Sides.get_set, f.isSome_crossSpace h, Bool.or_true]
  have hpinned : f.pinned (m.guarded f.cross) = f.pinned m := rfl
  have hrequest : f.contributionRequest space (m.guarded f.cross) = f.contributionRequest space m :=
    rfl
  have hcontent (m : Member) : f.contentLength (m.guarded f.cross) = f.contentLength m := rfl
  rw [contribution_eq, contribution_eq, hpinned, hrequest, hask]
  cases f.pinned m with
  | some v => rfl
  | none => rfl

theorem mainSize_guarded (ms : List Member) :
    f.mainSize space (ms.map (·.guarded f.cross)) =
      ((f.mainSize space ms).1, (f.mainSize space ms).2.map (·.guarded f.cross)) := by
  have hcontributed (m : Member) : contributed (m.guarded f.cross) = contributed m := rfl
  cases hs : space.get f.axis with
  | definite v =>
    simp only [mainSize, hs, List.map_map]
    rfl
  | minContent | maxContent =>
    simp only [mainSize, hs, List.map_map, Function.comp_def, f.contribution_guarded h,
      hcontributed]

theorem findCross_guarded (outerMain : Float32) (m : Member) :
    f.findCross space outerMain (m.guarded f.cross) =
      (f.findCross space outerMain m).guarded f.cross := by
  have hsize : (m.guarded f.cross).size = m.size := rfl
  have hmin : (m.guarded f.cross).min = m.min := rfl
  have hinsets : (m.guarded f.cross).insets = m.insets := rfl
  have htarget : (m.guarded f.cross).target = m.target := rfl
  have hask (known : Sides Known) (g : Float32 → Float32) (m : Member) :
      let r : Request := ⟨known, f.inner,
        .along f.axis (.definite outerMain) ((space.get f.cross).mapDefinite g), false, false⟩
      (m.guarded f.cross).ask r = ((m.ask r).1, (m.ask r).2.guarded f.cross) := by
    refine Member.ask_guarded ?_ m
    show (_ || ((Sides.along f.axis _ (Space.mapDefinite _ _)).get f.axis.other).known.isSome) =
      true
    rw [Sides.get_along_other, Space.isSome_known_mapDefinite, h, Bool.or_true]
  cases hc : m.size.get f.cross <;>
    simp only [findCross, hsize, hmin, hinsets, htarget, hc, hask] <;> rfl

end

theorem arrange_guarded (hspace : (space.get f.cross).known.isSome) (outerMain innerMain : Float32)
    (ms : List Member) :
    f.arrange space outerMain innerMain (ms.map (·.guarded f.cross)) =
      ((f.arrange space outerMain innerMain ms).1,
        (f.arrange space outerMain innerMain ms).2.map (·.guarded f.cross)) := by
  have hset (line : Float32) (m : Member) :
      f.setCross line (m.guarded f.cross) = (f.setCross line m).guarded f.cross := rfl
  have hplace (line : Float32) (m : Member) :
      f.placeCross line (m.guarded f.cross) = (f.placeCross line m).guarded f.cross := rfl
  simp only [arrange, resolveMain_mapSizer,
    map_step_mapSizer _ (f.findCross_guarded hspace outerMain), lineCross_mapSizer,
    map_step_mapSizer _ (hset _), placeMain_mapSizer, map_step_mapSizer _ (hplace _)]

theorem putAll_guarded (axis : Axis) (inner : Sides Known) (outer : Sides Float32)
    (cursor : Float32) (ms : List Member) :
    f.putAll inner outer cursor (ms.map (·.guarded axis)) = f.putAll inner outer cursor ms := by
  induction ms generalizing cursor with
  | nil => rfl
  | cons m rest ih =>
    rw [List.map_cons, putAll, putAll, Member.ask_guarded]
    · exact congrArg (List.cons _) (ih _)
    · show ((((m.guarded axis).target.map some).get axis).isSome || _) = true
      rw [Sides.get_map]
      rfl

theorem outerMain_guarded (hspace : (space.get f.cross).known.isSome) (ms : List Member) :
    f.outerMain space (ms.map (·.guarded f.cross)) =
      ((f.outerMain space ms).1, (f.outerMain space ms).2.map (·.guarded f.cross)) := by
  cases houter : f.outer.get f.axis with
  | some v => simp only [outerMain, houter]
  | none => simp only [outerMain, houter, f.mainSize_guarded hspace]

theorem lay_guarded {r : Request} (hspace : ((f.itemSpace r.space).get f.cross).known.isSome)
    (ms : List Member) : f.lay r (ms.map (·.guarded f.cross)) = f.lay r ms := by
  have harrange (v : Float32) := (f.withInner v).arrange_guarded hspace
  have hput (v : Float32) := (f.withInner v).putAll_guarded f.cross
  have hmemo := map_mapSizer (·.guarded f.cross) Member.memo fun _ => rfl
  have hcross (v : Float32) : (f.withInner v).cross = f.cross := rfl
  simp only [hcross] at harrange
  simp only [lay, finish, map_step_mapSizer _ (f.findBasis_guarded hspace),
    f.outerMain_guarded hspace, harrange, hput, hmemo]

/-- A side that is not known itself has definite room around it. -/
theorem isSome_known_room {known : Known} (own : Known) {space : Space} (g h : Float32 → Float32)
    (hr : known.isSome || space.known.isSome) :
    (match known.or own with
      | some v => .definite (g v)
      | none => space.mapDefinite h : Space).known.isSome := by
  cases known with
  | some v => rfl
  | none =>
    cases own with
    | some v => rfl
    | none => rwa [Option.or_none, Space.isSome_known_mapDefinite]

theorem isSome_itemSpace (style : ItemStyle) (axis : Axis) (justify : Justify) {r : Request}
    {side : Axis} (hr : r.settles side) :
    (((ofRequest style axis justify r).itemSpace r.space).get side).known.isSome := by
  cases side with
  | horizontal => exact isSome_known_room _ _ _ hr
  | vertical => exact isSome_known_room _ _ _ hr

end Frame

/-- What a line is asked across, it asks its items. -/
theorem size_guarded (style : ItemStyle) (axis : Axis) (justify : Justify) (align : Align)
    (cs : List (ItemStyle × Sizer)) {r : Request} (hr : r.settles axis.other) (memos : List Memo) :
    size style axis justify align (cs.map fun c => (c.1, c.2.guarded axis.other)) r memos =
      size style axis justify align cs r memos := by
  have hmembers (f : Frame) :
      (cs.map fun c => (c.1, c.2.guarded axis.other)).zipWith
          (fun c memo => Member.of f align c.1 c.2 memo) memos =
        (cs.zipWith (fun c memo => Member.of f align c.1 c.2 memo) memos).map
          (·.guarded axis.other) := by
    rw [List.zipWith_map_left, List.map_zipWith]
    rfl
  have hlay := (Frame.ofRequest style axis justify r).lay_guarded
    (Frame.isSome_itemSpace style axis justify hr)
  change ∀ ms, Frame.lay _ r (List.map (Member.guarded axis.other) ms) = _ at hlay
  rw [size_eq, size_eq]
  simp only [hmembers, hlay]

end Line

/-! ## 3. Items -/

variable {k : ℤ} {measure : Measurer}

/-- A line that is asked along a settled side does not look at its contents for it. -/
theorem Item.carefulSizer_of_settles {style : ItemStyle} {axis : Axis} {justify : Justify}
    {align : Align} {items : List Item} {r : Request} (hr : r.settles axis) (m : Memo) :
    (Item.container style (.line axis justify align) items).carefulSizer k measure [] r m =
      (Item.container style (.line axis justify align) items).sizer measure r m := by
  have hspace := Line.Frame.isSome_itemSpace style axis justify hr
  have hopen : (Line.Frame.ofRequest style axis justify r).leavesOpen
      ((Line.Frame.ofRequest style axis justify r).itemSpace r.space) = false := by
    rw [Line.Frame.leavesOpen, Bool.and_eq_false_iff, ← Option.not_isSome, ← Option.not_isSome]
    exact .inr (congrArg not hspace)
  have hstrains (children : List (ItemStyle × Sizer)) :
      Line.strains k style axis justify align children r m.children = false := by
    rw [Line.strains, Line.Frame.strains, hopen]
    rfl
  rw [carefulSizer, sizer]
  refine Sizer.remembering_congr ?_
  rw [hstrains]
  rfl

/-- A column asks its items across as it is asked. -/
theorem Item.carefulSizer_inside {style : ItemStyle} {axis : Axis} {justify : Justify}
    {align : Align} {items : List Item} {i : ℕ} {path : List ℕ}
    (h : ∀ item ∈ items[i]?, ∀ r m, r.settles axis.other →
      item.carefulSizer k measure path r m = item.sizer measure r m) {r : Request}
    (hr : r.settles axis.other) (m : Memo) :
    (Item.container style (.line axis justify align) items).carefulSizer k measure (i :: path) r m =
      (Item.container style (.line axis justify align) items).sizer measure r m := by
  have hitems : (items.mapIdx fun j c =>
        (c.style, if j = i then c.carefulSizer k measure path else c.sizer measure)).map
      (fun c => (c.1, c.2.guarded axis.other)) =
        (Item.sizers measure items).map fun c => (c.1, c.2.guarded axis.other) := by
    refine List.ext_getElem? fun j => ?_
    rw [Item.sizers_eq_map, List.getElem?_map, List.getElem?_map, List.getElem?_map,
      List.getElem?_mapIdx]
    cases hj : items[j]? with
    | none => rfl
    | some item =>
      simp only [Option.map_some]
      -- the changed item differs in requests that are not let through
      split
      · rename_i hji
        rw [Sizer.guarded_congr (h item (hji ▸ hj))]
      · rfl
  have hempty := congrArg List.isEmpty hitems
  rw [List.isEmpty_map, List.isEmpty_map] at hempty
  rw [carefulSizer, sizer]
  refine Sizer.remembering_congr ?_
  rw [containerSizer, containerSizer, hempty]
  simp only
  rw [← Line.size_guarded style axis justify align _ hr, hitems, Line.size_guarded _ _ _ _ _ hr]

end Layout

/-! ## 4. Visuals -/

/-- The position is that of a row, and all containers around it are columns. -/
def Visual.IsRowBelowColumns : List ℕ → Visual → Prop
  | [], .container _ a _ => a.direction = .row
  | i :: path, .container _ a vs =>
    a.direction = .column ∧ ∃ v ∈ vs[i]?, v.IsRowBelowColumns path
  | _, _ => False

theorem Layout.Item.carefulSizer_rowBelowColumns {k : ℤ} {measure : Measurer} {path : List ℕ}
    {v : Visual} (h : v.IsRowBelowColumns path) (parent : Direction) {r : Request}
    (hr : r.settles .horizontal) (m : Memo) :
    (Item.ofVisual parent v).carefulSizer k measure path r m =
      (Item.ofVisual parent v).sizer measure r m := by
  induction path generalizing v parent r m with
  | nil =>
    cases v with
    | container box a vs =>
      obtain ⟨direction, justify, align⟩ := a
      obtain rfl : direction = .row := h
      exact Item.carefulSizer_of_settles hr m
    | text | image | button | placeholder => cases h
  | cons i path ih =>
    cases v with
    | container box a vs =>
      obtain ⟨direction, justify, align⟩ := a
      obtain ⟨hdirection, v, hv, h⟩ := h
      obtain rfl : direction = .column := hdirection
      refine Item.carefulSizer_inside (fun item hitem r m hr => ?_) hr m
      rw [Item.ofVisuals_eq_map, List.getElem?_map, Option.mem_def.mp hv] at hitem
      obtain rfl : Item.ofVisual .column v = item := Option.some.inj hitem
      exact ih h .column hr m
    | text | image | button | placeholder => cases h

/-- The width of a row below columns comes down from the room for the card, so nothing strains. -/
theorem Visual.noUnderflowAt_of_rowBelowColumns {path : List ℕ} {v : Visual} {room : Available}
    {measure : Measurer} (h : v.IsRowBelowColumns path) (hend : (v.layout? room measure).isSome)
    (k : ℤ) : v.NoUnderflowAt k path room measure := by
  have hrecord : (Layout.Item.ofVisual .column v).carefulRecord k path room measure =
      (Layout.Item.ofVisual .column v).surfaceRecord room measure := by
    refine congrArg Prod.snd (Layout.Item.carefulSizer_inside ?_ rfl _)
    rintro _ ⟨⟩ r m hr
    exact Layout.Item.carefulSizer_rowBelowColumns h .column hr m
  rw [NoUnderflowAt, hrecord, Layout.Item.isHalted_surfaceRecord]
  rw [layout?] at hend
  split at hend
  · nomatch hend
  · exact Bool.eq_false_iff.mpr ‹_›

end ContentCard
