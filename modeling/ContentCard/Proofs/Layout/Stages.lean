import ContentCard.Layout.Engine
import Mathlib.Data.List.Forall2

/-!
# The stages of a line

A line is laid out in stages: the items' own lengths, the length of the line, the sharing out of the
room, the sizes across the line and the places.  Here each of them is a function of its own, and the
layout is their composition (`Line.size_eq`).

Few of the stages ask the items for anything.  The others keep where a member has its answers from
(`Member.source`), and do the same to members with other sizers (`Member.mapSizer`).
-/

namespace ContentCard.Layout

theorem map_eq_of_forall₂ {α β γ : Type} {R : α → β → Prop} {f : α → γ} {g : β → γ} {xs : List α}
    {ys : List β} (h : List.Forall₂ R xs ys) (hfg : ∀ x y, R x y → g y = f x) :
    ys.map g = xs.map f := by
  rw [← List.forall₂_eq_eq_eq, List.forall₂_map_left_iff, List.forall₂_map_right_iff]
  exact (h.imp hfg).flip

namespace Line

/-! ## 1. The own lengths of an item -/

namespace Frame

/-- What an item is asked along the line, before anything is known of it there. -/
def basisRequest (f : Frame) (space : Sides Space) (main : Space) (m : Member) : Request :=
  let crossSpace := f.crossSpace space m
  { known := f.knownAcross crossSpace m
    parent := .along f.axis none (f.inner.get f.cross)
    space := .along f.axis main crossSpace
    inherent := false
    final := false }

/-- The room along the line in which an item's content is measured. -/
def contentSpace (f : Frame) (space : Sides Space) : Space :=
  if space.get f.axis == Space.minContent then .minContent else .maxContent

/-- The item's declared basis or size, or the size of its content. -/
def basisOf (f : Frame) (space : Sides Space) (m : Member) : Float32 × Member :=
  match m.style.basis.or (m.size.get f.axis) with
  | some v => (v, m)
  | none =>
    let asked := m.ask (f.basisRequest space (f.contentSpace space) m)
    (asked.1.get f.axis, asked.2)

/-- The least size of an item's content, which its declared size may be below. -/
def leastLength (f : Frame) (m : Member) (size : Sides Float32) : Float32 :=
  let content := match m.size.get f.axis with
    | some v => Number.min (size.get f.axis) v
    | none => size.get f.axis
  Number.max content (m.insets.get f.axis)

/-- The item's declared least size, or the least size of its content. -/
def leastOf (f : Frame) (space : Sides Space) (m : Member) : Float32 × Member :=
  match m.min.get f.axis with
  | some v => (v, m)
  | none =>
    let asked := m.ask (f.basisRequest space .minContent m)
    (f.leastLength asked.2 asked.1, asked.2)

def withBasis (f : Frame) (basis least : Float32) (m : Member) : Member :=
  let inset := m.insets.get f.axis
  let basis := Number.max basis inset
  let likely := Number.max basis (Number.max least inset)
  { m with
    basis
    innerBasis :=
      basis - findBasis.edgeSum m.style.padding f.axis - findBasis.edgeSum m.style.border f.axis
    leastMain := least
    likely
    outerLikely := likely + m.margins.get f.axis }

theorem findBasis_eq (f : Frame) (space : Sides Space) (m : Member) :
    f.findBasis space m =
      let basis := f.basisOf space m
      let least := f.leastOf space basis.2
      f.withBasis basis.1 least.1 least.2 := by
  have hmin (r : Request) : (m.ask r).2.min = m.min := rfl
  cases hb : m.style.basis.or (m.size.get f.axis) <;> cases hl : m.min.get f.axis <;>
    simp only [findBasis, basisOf, leastOf, hb, hmin, hl] <;> rfl

end Frame

/-! ## 2. What an item adds to the length of its line -/

namespace Frame

/-- What an item adds to the length of a container that is as long as its content, if the content
has no part in it. -/
def pinned (f : Frame) (m : Member) : Known :=
  let margin := m.margins.get f.axis
  let clamping := atLeast m.basis (m.size.get f.axis)
  let basisMin := if m.style.shrink == 0 then some clamping else none
  let basisMax := if m.style.grow == 0 then some clamping else none
  let least := Number.max
    (((Known.atLeast (m.min.get f.axis) basisMin).or basisMin).getD m.leastMain) m.leastMain
  let most := basisMax.getD (1.0 / 0.0)
  let pinned := match m.size.get f.axis with
    | some p =>
      if most ≤ least ∨ most ≤ p then some (Number.max (Number.min p most) least) else none
    | none => none
  match pinned with
  | some v => some (v + margin)
  | none => if most ≤ least then some (least + margin) else none

def contributionRequest (f : Frame) (space : Sides Space) (m : Member) : Request :=
  let crossSpace := f.crossSpace space m
  { known := f.knownAcross crossSpace m
    parent := f.inner
    space := space.set f.cross crossSpace
    inherent := true
    final := false }

/-- What an item adds with content of the given size. -/
def contentLength (f : Frame) (m : Member) (size : Sides Float32) : Float32 :=
  let content := size.get f.axis + m.margins.get f.axis
  let inset := f.insets.get f.axis
  match f.axis with
  | .horizontal => Number.max (atLeast content (m.min.get f.axis)) inset
  | .vertical => Number.max (atLeast (Number.max content m.basis) (m.min.get f.axis)) inset

theorem contribution_eq (f : Frame) (space : Sides Space) (m : Member) :
    f.contribution space m =
      match f.pinned m with
      | some v => (v, m)
      | none =>
        let asked := m.ask (f.contributionRequest space m)
        (f.contentLength asked.2 asked.1, asked.2) := by
  unfold contribution
  extract_lets margin styleMin preferred clamping basisMin basisMax least most pinned
  have hpinned : f.pinned m = match pinned with
    | some v => some (v + margin)
    | none => if most ≤ least then some (least + margin) else none := rfl
  rw [hpinned]
  cases pinned with
  | some v => rfl
  | none =>
    by_cases hmost : most ≤ least
    · simp only [if_pos hmost]
    · have haxis (axis : Axis) (a b : Float32) (m : Member) :
          (match axis with | .horizontal => (a, m) | .vertical => (b, m)) =
            (match axis with | .horizontal => a | .vertical => b, m) := by
        cases axis <;> rfl
      simp only [if_neg hmost]
      exact haxis f.axis _ _ _

end Frame

/-! ## 3. Sharing out the room -/

def growths (ms : List Member) : List Float32 := ms.map (·.style.grow)

/-- The member cannot change in the direction of the line. -/
def Member.isStiff (m : Member) (growing : Bool) : Bool :=
  (m.style.grow == 0 && m.style.shrink == 0) || (growing && m.likely < m.basis) ||
    (!growing && m.basis < m.likely)

namespace Frame

variable (f : Frame)

/-- The room that a round shares out. -/
def roundRoom (inner initialRoom : Float32) (growing : Bool) (ms : List Member) : Float32 :=
  let room := inner - Number.sum (ms.map f.taken)
  let free := ms.filter (!·.frozen)
  let growSum := Number.sum (growths free)
  let shrinkSum := Number.sum (free.map (·.style.shrink))
  if growing && growSum < 1 then Number.min (initialRoom * growSum) room
  else if !growing && shrinkSum < 1 then Number.max (initialRoom * shrinkSum) room
  else room

/-- What a round makes of a member before it looks at the violations. -/
def roundStep (inner initialRoom : Float32) (growing : Bool) (ms : List Member) (m : Member) :
    Member :=
  let room := f.roundRoom inner initialRoom growing ms
  let free := ms.filter (!·.frozen)
  if m.frozen then m
  else f.bound
    (if isNormal room then
      f.shareOut growing room (Number.sum (growths free)) (Number.sum (free.map (·.style.shrink)))
        ms m
    else m)

def settle (ms : List Member) (m : Member) : Member :=
  if m.frozen then m else freeze (Number.sum ((ms.filter (!·.frozen)).map Member.violation)) m

theorem round_eq (inner initialRoom : Float32) (growing : Bool) (ms : List Member) :
    f.round inner initialRoom growing ms =
      let ms' := ms.map (f.roundStep inner initialRoom growing ms)
      ms'.map (settle ms') := rfl

/-- A member before the first round. -/
def begin (growing : Bool) (m : Member) : Member :=
  let m := f.setTarget m m.likely
  if m.isStiff growing then
    f.setOuterTarget { m with frozen := true } (m.likely + m.margins.get f.axis)
  else m

theorem resolveMain_eq (inner : Float32) (ms : List Member) :
    f.resolveMain inner ms =
      let growing : Bool := Number.sum (ms.map Member.outerLikely) < inner
      let ms := ms.map (f.begin growing)
      f.rounds inner (inner - Number.sum (ms.map f.taken)) growing ms.length ms := rfl

end Frame

/-! ## 4. The size of a line -/

/-- What an item adds to the length of its line, after it has grown or shrunk for it. -/
def Frame.share (f : Frame) (space : Sides Space) (m : Member) : Float32 × Member :=
  let asked := f.contribution space m
  (contributed asked.2 asked.1, asked.2)

namespace Frame

/-- The container of a line when a size is asked for. -/
def ofRequest (style : ItemStyle) (axis : Axis) (justify : Justify) (r : Request) : Frame :=
  let outer := settled style r
  { axis, justify, style, outer,
    inner := outer.zipWith (fun k inset => k.map (· - inset)) style.insetSums }

variable (f : Frame)

/-- The length of a container that is as long as its items need. -/
def openLength (shares : List Float32) : Float32 :=
  Number.max
    (atLeast (Number.max 0 (Number.sum shares) + f.insets.get f.axis) (f.min.get f.axis))
    (f.insets.get f.axis)

theorem mainSize_of_open {space : Sides Space} (h : (space.get f.axis).known = none)
    (ms : List Member) :
    f.mainSize space ms =
      let asked := ms.map (f.share space)
      (f.openLength (asked.map Prod.fst), asked.map Prod.snd) := by
  cases hs : space.get f.axis with
  | definite v => rw [hs] at h; nomatch h
  | minContent | maxContent =>
    simp only [mainSize, hs]
    rfl

/-- The container's length along the line: its own, or from its items. -/
def outerMain (space : Sides Space) (ms : List Member) : Float32 × List Member :=
  match f.outer.get f.axis with
  | some v => (v - f.insets.get f.axis + f.insets.get f.axis, ms)
  | none => f.mainSize space ms

/-- The room that a container of the given length has for its items. -/
def innerMain (outerMain : Float32) : Float32 :=
  match f.inner.get f.axis with
  | some v => v
  | none => Number.max (outerMain - f.insets.get f.axis) 0

def withInner (innerMain : Float32) : Frame :=
  { f with inner := f.inner.set f.axis (some innerMain) }

/-- The line's size, and its members in their places. -/
def arrange (space : Sides Space) (outerMain innerMain : Float32) (ms : List Member) :
    Sides Float32 × List Member :=
  let ms := (f.resolveMain innerMain ms).map (f.findCross space outerMain)
  let line := f.lineCross ms
  let ms := (f.placeMain innerMain (ms.map (f.setCross line))).map (f.placeCross line)
  let outerCross := Number.max
    (atLeast ((f.outer.get f.cross).getD (line + f.insets.get f.cross)) (f.min.get f.cross))
    (f.insets.get f.cross)
  (Sides.along f.axis outerMain outerCross, ms)

/-- What a member is asked across the line, of which the length is known. -/
def crossRequest (space : Sides Space) (outerMain : Float32) (m : Member) : Request :=
  let room := (space.get f.cross).mapDefinite fun v =>
    Number.max (atLeast v (m.min.get f.cross)) (m.insets.get f.cross)
  { known := .along f.axis (some (m.target.get f.axis)) none
    parent := f.inner
    space := .along f.axis (.definite outerMain) room
    inherent := false
    final := false }

def withCross (cross : Float32) (m : Member) : Member :=
  { m with crossLikely := cross, outerCrossLikely := cross + m.margins.get f.cross }

/-- What a member is asked in the end. -/
def putRequest (inner : Sides Known) (outer : Sides Float32) (m : Member) : Request where
  known := m.target.map some
  parent := inner
  space := outer.map .definite
  inherent := false
  final := true

/-- The place of a member of the given size. -/
def placeOf (size : Sides Float32) (cursor : Float32) (m : Member) : Place :=
  let main := cursor + m.mainOffset + leadingEdge m.style.margin f.axis
  let cross := leadingEdge f.style.insets f.cross + m.crossOffset +
    leadingEdge m.style.margin f.cross
  let at' := Sides.along f.axis main cross
  ⟨at'.width, at'.height, size⟩

def cursorAfter (size : Sides Float32) (cursor : Float32) (m : Member) : Float32 :=
  cursor + m.mainOffset + m.margins.get f.axis + size.get f.axis

/-- Puts a member into its place, and tells where the next one begins. -/
def putOne (inner : Sides Known) (outer : Sides Float32) (cursor : Float32) (m : Member) :
    Float32 × Memo :=
  let asked := m.ask (putRequest inner outer m)
  (f.cursorAfter asked.1 cursor asked.2, asked.2.memo.putAt (f.placeOf asked.1 cursor asked.2))

theorem putAll_cons (inner : Sides Known) (outer : Sides Float32) (cursor : Float32) (m : Member)
    (rest : List Member) :
    f.putAll inner outer cursor (m :: rest) =
      (f.putOne inner outer cursor m).2 ::
        f.putAll inner outer (f.putOne inner outer cursor m).1 rest := rfl

/-- The records of the members, which a final request puts into their places. -/
def finish (r : Request) (size : Sides Float32) (ms : List Member) : List Memo :=
  if r.final then f.putAll f.inner size (leadingEdge f.style.insets f.axis) ms
  else ms.map Member.memo

/-- A line as it is laid out, unless all of its size is settled before. -/
def lay (r : Request) (ms : List Member) : Sides Float32 × List Memo :=
  let space := f.itemSpace r.space
  let main := f.outerMain space (ms.map (f.findBasis space))
  let innerMain := f.innerMain main.1
  let f := f.withInner innerMain
  let arranged := f.arrange space main.1 innerMain main.2
  (arranged.1, f.finish r arranged.1 arranged.2)

end Frame

theorem size_eq (style : ItemStyle) (axis : Axis) (justify : Justify) (align : Align)
    (children : List (ItemStyle × Sizer)) (r : Request) (memos : List Memo) :
    size style axis justify align children r memos =
      let f := Frame.ofRequest style axis justify r
      match r.final, settled style r with
      | false, ⟨some w, some h⟩ => (⟨w, h⟩, memos)
      | _, _ =>
        f.lay r (children.zipWith (fun c memo => Member.of f align c.1 c.2 memo) memos) := by
  unfold size Frame.lay Frame.finish
  cases r.final <;> rfl

/-! ## 5. Stages that leave the members' sources alone -/

/-- Where a member has its answers from: its sizer, and the record it holds at present. -/
def Member.source (m : Member) : Sizer × Memo := (m.sizer, m.memo)

theorem map_source_map {g : Member → Member} (hg : ∀ m, (g m).source = m.source)
    (ms : List Member) : (ms.map g).map Member.source = ms.map Member.source := by
  rw [List.map_map]
  exact List.map_congr_left fun m _ => hg m

namespace Frame

variable (f : Frame)

theorem source_shareOut (growing : Bool) (room growSum shrinkSum : Float32) (all : List Member)
    (m : Member) : (f.shareOut growing room growSum shrinkSum all m).source = m.source := by
  unfold shareOut
  extract_lets sum
  split
  · split <;> rfl
  · split
    · split <;> rfl
    · rfl

theorem source_roundStep (inner initialRoom : Float32) (growing : Bool) (all : List Member)
    (m : Member) : (f.roundStep inner initialRoom growing all m).source = m.source := by
  unfold roundStep
  extract_lets room free
  split
  · rfl
  · show (if _ then _ else _ : Member).source = _
    split
    · exact f.source_shareOut growing _ _ _ all m
    · rfl

theorem source_settle (all : List Member) (m : Member) : (settle all m).source = m.source := by
  unfold settle
  split
  · rfl
  · unfold freeze
    split
    · rfl
    · split <;> rfl

theorem map_source_rounds (inner initialRoom : Float32) (growing : Bool) (n : Nat)
    (ms : List Member) :
    (f.rounds inner initialRoom growing n ms).map Member.source = ms.map Member.source := by
  induction n generalizing ms with
  | zero => rfl
  | succ n ih =>
    rw [rounds]
    split
    · rfl
    · rw [ih, round_eq]
      exact (map_source_map (source_settle _) _).trans
        (map_source_map (f.source_roundStep inner initialRoom growing ms) ms)

theorem map_source_resolveMain (inner : Float32) (ms : List Member) :
    (f.resolveMain inner ms).map Member.source = ms.map Member.source := by
  rw [resolveMain_eq]
  extract_lets growing ms'
  rw [map_source_rounds]
  refine map_source_map (fun m => ?_) ms
  show (if _ then _ else _ : Member).source = _
  split <;> rfl

theorem map_source_placeMain (inner : Float32) (ms : List Member) :
    (f.placeMain inner ms).map Member.source = ms.map Member.source := by
  cases ms with
  | nil => rfl
  | cons m rest =>
    refine congrArg (List.cons _) (map_source_map ?_ rest)
    exact fun _ => rfl

end Frame

/-! ## 6. The same stages with other sizers -/

/-- The same member, which asks for its size elsewhere. -/
def Member.mapSizer (φ : Sizer → Sizer) (m : Member) : Member := { m with sizer := φ m.sizer }

namespace Frame

variable (f : Frame) (φ : Sizer → Sizer)

theorem map_mapSizer {α : Type} (read : Member → α) (hread : ∀ m, read (m.mapSizer φ) = read m)
    (ms : List Member) : (ms.map (·.mapSizer φ)).map read = ms.map read := by
  rw [List.map_map]
  exact List.map_congr_left fun m _ => hread m

theorem filter_mapSizer (ms : List Member) : (ms.map (·.mapSizer φ)).filter (!·.frozen) =
    (ms.filter (!·.frozen)).map (·.mapSizer φ) := List.filter_map

theorem map_step_mapSizer {step step' : Member → Member}
    (hstep : ∀ m, step' (m.mapSizer φ) = (step m).mapSizer φ) (ms : List Member) :
    (ms.map (·.mapSizer φ)).map step' = (ms.map step).map (·.mapSizer φ) := by
  rw [List.map_map, List.map_map]
  exact List.map_congr_left fun m _ => hstep m

theorem map_filter_mapSizer {α : Type} (read : Member → α)
    (hread : ∀ m, read (m.mapSizer φ) = read m) (ms : List Member) :
    ((ms.map (·.mapSizer φ)).filter (!·.frozen)).map read =
      (ms.filter (!·.frozen)).map read := by
  rw [filter_mapSizer, map_mapSizer φ read hread]

theorem shareOut_mapSizer (growing : Bool) (room growSum shrinkSum : Float32) (ms : List Member)
    (m : Member) :
    f.shareOut growing room growSum shrinkSum (ms.map (·.mapSizer φ)) (m.mapSizer φ) =
      (f.shareOut growing room growSum shrinkSum ms m).mapSizer φ := by
  have hinner := map_filter_mapSizer φ (fun m => m.innerBasis * m.style.shrink) (fun _ => rfl) ms
  simp only [shareOut, hinner]
  split
  · split <;> rfl
  · split
    · split <;> rfl
    · rfl

theorem roundStep_mapSizer (inner initialRoom : Float32) (growing : Bool) (ms : List Member)
    (m : Member) :
    f.roundStep inner initialRoom growing (ms.map (·.mapSizer φ)) (m.mapSizer φ) =
      (f.roundStep inner initialRoom growing ms m).mapSizer φ := by
  have hroom : f.roundRoom inner initialRoom growing (ms.map (·.mapSizer φ)) =
      f.roundRoom inner initialRoom growing ms := by
    simp only [roundRoom, growths, map_mapSizer φ f.taken (fun _ => rfl),
      map_filter_mapSizer φ (·.style.grow) (fun _ => rfl),
      map_filter_mapSizer φ (·.style.shrink) (fun _ => rfl)]
    rfl
  have hfrozen : (m.mapSizer φ).frozen = m.frozen := rfl
  simp only [roundStep, hroom, growths, map_filter_mapSizer φ (·.style.grow) (fun _ => rfl),
      map_filter_mapSizer φ (·.style.shrink) (fun _ => rfl), shareOut_mapSizer, hfrozen]
  split
  · rfl
  · split <;> rfl

theorem settle_mapSizer (ms : List Member) (m : Member) :
    settle (ms.map (·.mapSizer φ)) (m.mapSizer φ) = (settle ms m).mapSizer φ := by
  have hviolation := map_filter_mapSizer φ Member.violation (fun _ => rfl) ms
  have hfrozen : (m.mapSizer φ).frozen = m.frozen := rfl
  simp only [settle, hviolation, hfrozen]
  split
  · rfl
  · unfold freeze
    split
    · rfl
    · split <;> rfl

theorem round_mapSizer (inner initialRoom : Float32) (growing : Bool) (ms : List Member) :
    f.round inner initialRoom growing (ms.map (·.mapSizer φ)) =
      (f.round inner initialRoom growing ms).map (·.mapSizer φ) := by
  rw [round_eq, round_eq]
  dsimp only
  rw [map_step_mapSizer φ (f.roundStep_mapSizer φ inner initialRoom growing ms)]
  exact map_step_mapSizer φ (settle_mapSizer φ _) _

theorem rounds_mapSizer (inner initialRoom : Float32) (growing : Bool) (n : ℕ) (ms : List Member) :
    f.rounds inner initialRoom growing n (ms.map (·.mapSizer φ)) =
      (f.rounds inner initialRoom growing n ms).map (·.mapSizer φ) := by
  induction n generalizing ms with
  | zero => rfl
  | succ n ih =>
    have hfrozen : (ms.map (·.mapSizer φ)).all Member.frozen = ms.all Member.frozen := by
      rw [List.all_map]
      rfl
    rw [rounds, rounds, hfrozen, round_mapSizer, ih]
    split <;> rfl

theorem resolveMain_mapSizer (inner : Float32) (ms : List Member) :
    f.resolveMain inner (ms.map (·.mapSizer φ)) =
      (f.resolveMain inner ms).map (·.mapSizer φ) := by
  have hbegin (growing : Bool) (m : Member) :
      f.begin growing (m.mapSizer φ) = (f.begin growing m).mapSizer φ := by
    have hstiff : (f.setTarget (m.mapSizer φ) (m.mapSizer φ).likely).isStiff growing =
        (f.setTarget m m.likely).isStiff growing := rfl
    simp only [begin, hstiff]
    split <;> rfl
  simp only [resolveMain_eq, map_mapSizer φ Member.outerLikely (fun _ => rfl),
    map_step_mapSizer φ (hbegin _), map_mapSizer φ f.taken (fun _ => rfl), List.length_map,
    rounds_mapSizer]

theorem placeMain_mapSizer (inner : Float32) (ms : List Member) :
    f.placeMain inner (ms.map (·.mapSizer φ)) =
      (f.placeMain inner ms).map (·.mapSizer φ) := by
  cases ms with
  | nil => rfl
  | cons m rest =>
    have houter : (m.mapSizer φ :: rest.map (·.mapSizer φ)).map (·.outerTarget.get f.axis) =
        (m :: rest).map (·.outerTarget.get f.axis) := map_mapSizer φ _ (fun _ => rfl) (m :: rest)
    rw [List.map_cons]
    simp only [placeMain, houter, List.length_cons, List.length_map]
    refine congrArg (List.cons _) (map_step_mapSizer φ ?_ rest)
    exact fun _ => rfl

theorem lineCross_mapSizer (ms : List Member) :
    f.lineCross (ms.map (·.mapSizer φ)) = f.lineCross ms := by
  simp only [lineCross, List.foldl_map]
  rfl

end Frame

end Line

end ContentCard.Layout
