import ContentCard.Proofs.Layout.Stages
import ContentCard.Proofs.Number.Shares

/-!
# Growth in proportion

A line gives its free room to its items in proportion to their growth.  So two lines whose items
differ only in their growth, and that by one power of two (`Line.Regrown`), are laid out alike: the
free items have proportional sums in every round, and each item has the same share of the room.
-/

namespace ContentCard.Layout

open Number (Proportional)

def ItemStyle.withGrow (s : ItemStyle) (g : Float32) : ItemStyle := { s with grow := g }

namespace Line

def Member.withGrow (m : Member) (g : Float32) : Member := { m with style := m.style.withGrow g }

/-! ## 1. What does not depend on growth -/

section

variable (f : Frame) (m : Member) (g : Float32)

theorem Member.ask_withGrow (r : Request) :
    (m.withGrow g).ask r = ((m.ask r).1, (m.ask r).2.withGrow g) := rfl

namespace Frame

theorem findBasis_withGrow (space : Sides Space) :
    f.findBasis space (m.withGrow g) = (f.findBasis space m).withGrow g := by
  have hbasis : (m.withGrow g).style.basis = m.style.basis := rfl
  have hsize : (m.withGrow g).size = m.size := rfl
  have hmin (m : Member) : (m.withGrow g).min = m.min := rfl
  have hasked (r : Request) : (m.ask r).2.min = m.min := rfl
  -- the basis is declared or asked for, and so is the least size
  cases hb : m.style.basis.or (m.size.get f.axis) <;> cases hl : m.min.get f.axis <;>
    simp only [findBasis, hbasis, hsize, hb, hl, hmin, hasked, Member.ask_withGrow] <;> rfl

theorem freeze_withGrow (total : Float32) :
    freeze total (m.withGrow g) = (freeze total m).withGrow g := by
  unfold freeze
  split
  · rfl
  · split <;> rfl

theorem findCross_withGrow (space : Sides Space) (outerMain : Float32) :
    f.findCross space outerMain (m.withGrow g) = (f.findCross space outerMain m).withGrow g := by
  have hsize : (m.withGrow g).size = m.size := rfl
  cases hc : m.size.get f.cross <;> simp only [findCross, hsize, hc] <;> rfl

theorem setCross_withGrow (line : Float32) :
    f.setCross line (m.withGrow g) = (f.setCross line m).withGrow g := rfl

theorem placeCross_withGrow (line : Float32) :
    f.placeCross line (m.withGrow g) = (f.placeCross line m).withGrow g := rfl

end Frame

end

/-! ## 2. Lines with proportional growth -/

/-- The same member, with its growth multiplied. -/
def Member.Regrown (k : ℤ) (m m' : Member) : Prop :=
  ∃ g, Proportional k m.style.grow g ∧ m' = m.withGrow g

/-- The same members, with the growth of all multiplied by one power of two. -/
structure Regrown (k : ℤ) (ms ms' : List Member) : Prop where
  members : List.Forall₂ (Member.Regrown k) ms ms'
  isFinite_left : (Number.sum (growths ms)).isFinite
  isFinite_right : (Number.sum (growths ms')).isFinite

variable {k : ℤ} {ms ms' : List Member} (f : Frame)

section

variable (h : List.Forall₂ (Member.Regrown k) ms ms')

include h

/-- A step that treats members alike whatever their growth is. -/
theorem forall₂_regrown_map {step step' : Member → Member}
    (hstep : ∀ m g, Proportional k m.style.grow g → step' (m.withGrow g) = (step m).withGrow g)
    (hgrow : ∀ m, (step m).style.grow = m.style.grow) :
    List.Forall₂ (Member.Regrown k) (ms.map step) (ms'.map step') := by
  rw [List.forall₂_map_left_iff, List.forall₂_map_right_iff]
  refine h.imp ?_
  rintro m _ ⟨g, hg, rfl⟩
  exact ⟨g, (hgrow m).symm ▸ hg, hstep m g hg⟩

/-- What is read of the members without their growth. -/
theorem map_eq_of_regrown {α : Type} {read : Member → α}
    (hread : ∀ m g, read (m.withGrow g) = read m) : ms'.map read = ms.map read := by
  refine map_eq_of_forall₂ h ?_
  rintro m _ ⟨g, -, rfl⟩
  exact hread m g

theorem forall₂_growths : List.Forall₂ (Proportional k) (growths ms) (growths ms') := by
  rw [growths, growths, List.forall₂_map_left_iff, List.forall₂_map_right_iff]
  refine h.imp ?_
  rintro m _ ⟨g, hg, rfl⟩
  exact hg

end

/-- A step that commutes with any change of the growth keeps the growth. -/
theorem grow_of_withGrow {step : Member → Member}
    (hstep : ∀ m g, step (m.withGrow g) = (step m).withGrow g) (m : Member) :
    (step m).style.grow = m.style.grow :=
  congrArg (·.style.grow) (hstep m m.style.grow)

theorem forall₂_regrown_map_same (h : List.Forall₂ (Member.Regrown k) ms ms')
    {step : Member → Member} (hstep : ∀ m g, step (m.withGrow g) = (step m).withGrow g) :
    List.Forall₂ (Member.Regrown k) (ms.map step) (ms'.map step) :=
  forall₂_regrown_map h (fun m g _ => hstep m g) (grow_of_withGrow hstep)

namespace Regrown

theorem map (h : Regrown k ms ms') {step step' : Member → Member}
    (hstep : ∀ m g, Proportional k m.style.grow g → step' (m.withGrow g) = (step m).withGrow g)
    (hgrow : ∀ m, (step m).style.grow = m.style.grow)
    (hgrow' : ∀ m, (step' m).style.grow = m.style.grow) :
    Regrown k (ms.map step) (ms'.map step') := by
  have hkeep {ms : List Member} {step : Member → Member}
      (hgrow : ∀ m, (step m).style.grow = m.style.grow) :
      growths (ms.map step) = growths ms := by
    rw [growths, List.map_map]
    exact List.map_congr_left fun m _ => hgrow m
  exact ⟨forall₂_regrown_map h.members hstep hgrow, by rw [hkeep hgrow]; exact h.isFinite_left,
    by rw [hkeep hgrow']; exact h.isFinite_right⟩

/-- The members that are still free. -/
theorem filter (h : Regrown k ms ms') :
    Regrown k (ms.filter (!·.frozen)) (ms'.filter (!·.frozen)) := by
  have hgrowths := forall₂_growths h.members
  refine ⟨List.rel_filter ?_ h.members, ?_, ?_⟩
  · rintro m _ ⟨g, -, rfl⟩
    exact Iff.rfl
  · exact Number.isFinite_sum_of_sublist (List.filter_sublist.map _)
      (Proportional.forall_nonneg hgrowths) h.isFinite_left
  · exact Number.isFinite_sum_of_sublist (List.filter_sublist.map _)
      (Proportional.forall_nonneg (Proportional.forall₂_symm hgrowths)) h.isFinite_right

theorem proportional_sum (h : Regrown k ms ms') :
    Proportional k (Number.sum (growths ms)) (Number.sum (growths ms')) :=
  Proportional.sum (forall₂_growths h.members) h.isFinite_left h.isFinite_right

end Regrown

/-! ## 3. Sharing out the room -/

namespace Frame

theorem roundRoom_regrown (h : Regrown k ms ms') (inner initialRoom : Float32) (growing : Bool) :
    f.roundRoom inner initialRoom growing ms' = f.roundRoom inner initialRoom growing ms := by
  have htaken : ms'.map f.taken = ms.map f.taken := map_eq_of_regrown h.members fun _ _ => rfl
  have hshrink : (ms'.filter (!·.frozen)).map (·.style.shrink) =
      (ms.filter (!·.frozen)).map (·.style.shrink) :=
    map_eq_of_regrown h.filter.members fun _ _ => rfl
  have hsum := h.filter.proportional_sum
  simp only [roundRoom, htaken, hshrink]
  generalize Number.sum (growths (ms.filter (!·.frozen))) = growSum at hsum ⊢
  generalize Number.sum (growths (ms'.filter (!·.frozen))) = growSum' at hsum ⊢
  by_cases hlt : growSum < 1
  · -- then nothing grows in either line
    obtain ⟨rfl, rfl⟩ := hsum.lt_one_iff.mp hlt
    rfl
  · have hlt' : ¬growSum' < 1 := fun h => hlt (hsum.lt_one_iff_lt_one.mpr h)
    simp only [hlt, hlt', decide_false, Bool.and_false, Bool.false_eq_true, if_false]

theorem shareOut_withGrow {m : Member} {g growSum growSum' : Float32} (h : Regrown k ms ms')
    (hm : Proportional k m.style.grow g) (hsum : Proportional k growSum growSum') (growing : Bool)
    (room shrinkSum : Float32) :
    f.shareOut growing room growSum' shrinkSum ms' (m.withGrow g) =
      (f.shareOut growing room growSum shrinkSum ms m).withGrow g := by
  cases growing with
  | true =>
    by_cases hpos : 0 < growSum
    -- a share is a quotient, and from both the power of two goes away
    · have hshare : m.style.grow / growSum = g / growSum' := hm.div_eq hsum hpos
      simp only [shareOut, if_pos hpos, if_pos (hsum.pos_iff.mp hpos), hshare]
      rfl
    · simp only [shareOut, if_neg hpos, if_neg (fun h => hpos (hsum.pos_iff.mpr h))]
      rfl
  | false =>
    have hinner : (ms'.filter (!·.frozen)).map (fun m => m.innerBasis * m.style.shrink) =
        (ms.filter (!·.frozen)).map (fun m => m.innerBasis * m.style.shrink) :=
      map_eq_of_regrown h.filter.members fun _ _ => rfl
    simp only [shareOut, hinner, Bool.false_eq_true, if_false]
    split
    · split <;> rfl
    · rfl

theorem roundStep_withGrow {m : Member} {g : Float32} (h : Regrown k ms ms')
    (hm : Proportional k m.style.grow g) (inner initialRoom : Float32) (growing : Bool) :
    f.roundStep inner initialRoom growing ms' (m.withGrow g) =
      (f.roundStep inner initialRoom growing ms m).withGrow g := by
  have hshrink : (ms'.filter (!·.frozen)).map (·.style.shrink) =
      (ms.filter (!·.frozen)).map (·.style.shrink) :=
    map_eq_of_regrown h.filter.members fun _ _ => rfl
  have hfrozen : (m.withGrow g).frozen = m.frozen := rfl
  simp only [roundStep, f.roundRoom_regrown h, hshrink, hfrozen,
    f.shareOut_withGrow h hm h.filter.proportional_sum]
  split
  · rfl
  · split <;> rfl

theorem grow_shareOut (growing : Bool) (room growSum shrinkSum : Float32) (all : List Member)
    (m : Member) : (f.shareOut growing room growSum shrinkSum all m).style.grow = m.style.grow := by
  unfold shareOut
  extract_lets sum
  split
  · split <;> rfl
  · split
    · split <;> rfl
    · rfl

theorem grow_roundStep (inner initialRoom : Float32) (growing : Bool) (all : List Member)
    (m : Member) : (f.roundStep inner initialRoom growing all m).style.grow = m.style.grow := by
  unfold roundStep
  extract_lets room free
  split
  · rfl
  · show (if _ then _ else _ : Member).style.grow = _
    split
    · exact f.grow_shareOut growing _ _ _ all m
    · rfl

theorem settle_withGrow (h : Regrown k ms ms') (m : Member) (g : Float32) :
    settle ms' (m.withGrow g) = (settle ms m).withGrow g := by
  have hviolation : (ms'.filter (!·.frozen)).map Member.violation =
      (ms.filter (!·.frozen)).map Member.violation :=
    map_eq_of_regrown h.filter.members fun _ _ => rfl
  have hfrozen : (m.withGrow g).frozen = m.frozen := rfl
  simp only [settle, hviolation, hfrozen, freeze_withGrow]
  split <;> rfl

theorem grow_settle (all : List Member) (m : Member) :
    (settle all m).style.grow = m.style.grow := by
  unfold settle
  split
  · rfl
  · exact grow_of_withGrow (fun m g => freeze_withGrow m g _) m

end Frame

namespace Regrown

/-- A round keeps the growth in proportion. -/
theorem round (h : Regrown k ms ms') (inner initialRoom : Float32) (growing : Bool) :
    Regrown k (f.round inner initialRoom growing ms) (f.round inner initialRoom growing ms') := by
  rw [Frame.round_eq, Frame.round_eq]
  have hstep := h.map (fun m g hm => f.roundStep_withGrow h hm inner initialRoom growing)
    (f.grow_roundStep inner initialRoom growing ms) (f.grow_roundStep inner initialRoom growing ms')
  exact hstep.map (fun m g _ => Frame.settle_withGrow hstep m g) (Frame.grow_settle _)
    (Frame.grow_settle _)

/-- So do all rounds. -/
theorem rounds (h : Regrown k ms ms') (inner initialRoom : Float32) (growing : Bool) (n : ℕ) :
    Regrown k (f.rounds inner initialRoom growing n ms)
      (f.rounds inner initialRoom growing n ms') := by
  induction n generalizing ms ms' with
  | zero => exact h
  | succ n ih =>
    have hall (ns : List Member) : ns.all Member.frozen = (ns.map Member.frozen).all id := by
      rw [List.all_map]
      rfl
    -- the same members are frozen, so both lines are finished after the same round
    have hfrozen : ms'.map Member.frozen = ms.map Member.frozen :=
      map_eq_of_regrown h.members fun _ _ => rfl
    rw [Frame.rounds, Frame.rounds, hall, hall, hfrozen]
    split
    · exact h
    · exact ih (h.round f inner initialRoom growing)

end Regrown

theorem Member.isStiff_withGrow {m : Member} {g : Float32} (hm : Proportional k m.style.grow g)
    (growing : Bool) : (m.withGrow g).isStiff growing = m.isStiff growing := by
  have hzero : ((m.withGrow g).style.grow == 0) = (m.style.grow == 0) := hm.beq_zero.symm
  rw [isStiff, hzero]
  rfl

theorem Frame.begin_withGrow {m : Member} {g : Float32} (hm : Proportional k m.style.grow g)
    (growing : Bool) : f.begin growing (m.withGrow g) = (f.begin growing m).withGrow g := by
  have hstiff : (f.setTarget (m.withGrow g) (m.withGrow g).likely).isStiff growing =
      (f.setTarget m m.likely).isStiff growing :=
    Member.isStiff_withGrow (m := f.setTarget m m.likely) hm growing
  simp only [begin, hstiff]
  split <;> rfl

theorem Frame.grow_begin (growing : Bool) (m : Member) :
    (f.begin growing m).style.grow = m.style.grow := by
  show (if _ then _ else _ : Member).style.grow = _
  split <;> rfl

theorem Regrown.resolveMain (h : Regrown k ms ms') (inner : Float32) :
    Regrown k (f.resolveMain inner ms) (f.resolveMain inner ms') := by
  have hlikely : ms'.map Member.outerLikely = ms.map Member.outerLikely :=
    map_eq_of_regrown h.members fun _ _ => rfl
  rw [Frame.resolveMain_eq, Frame.resolveMain_eq, hlikely]
  extract_lets growing ns ns'
  have hbegin : Regrown k ns ns' :=
    h.map (fun m g hm => f.begin_withGrow hm growing) (f.grow_begin growing) (f.grow_begin growing)
  have htaken : ns'.map f.taken = ns.map f.taken :=
    map_eq_of_regrown hbegin.members fun _ _ => rfl
  rw [htaken, ← hbegin.members.length_eq]
  exact hbegin.rounds f inner _ growing ns.length

/-! ## 4. What an item adds to a length that is left to the items -/

/-- The share of what an item is to grow by for its content is subnormal, with its growth or with
the growth times `2 ^ k`. -/
def Member.strains (k : ℤ) (m : Member) (contribution : Float32) : Bool :=
  let diff := contribution - m.basis
  Number.isSubnormalShare diff (Number.value m.style.grow) ||
    Number.isSubnormalShare diff (Number.value m.style.grow * 2 ^ k)

namespace Frame

theorem share_fst (space : Sides Space) (m : Member) :
    (f.share space m).1 = contributed m (f.contribution space m).1 := by
  rw [share, contribution_eq]
  cases f.pinned m <;> rfl

theorem grow_share (space : Sides Space) (m : Member) :
    (f.share space m).2.style.grow = m.style.grow := by
  rw [share, contribution_eq]
  cases f.pinned m <;> rfl

end Frame

section

variable {m : Member} {g : Float32} (hm : Proportional k m.style.grow g)

include hm

/-- One member of two whose growth is a multiple of the other's strains where the other does. -/
theorem Member.strains_withGrow (c : Float32) : (m.withGrow g).strains (-k) c = m.strains k c := by
  have hgrow : (m.withGrow g).style.grow = g := rfl
  have hbasis : (m.withGrow g).basis = m.basis := rfl
  rw [strains, strains, hgrow, hbasis, hm.symm.value_eq.symm, hm.value_eq, Bool.or_comm]

namespace Frame

theorem pinned_withGrow : f.pinned (m.withGrow g) = f.pinned m := by
  have hzero : ((m.withGrow g).style.grow == 0) = (m.style.grow == 0) := hm.beq_zero.symm
  rw [pinned, hzero]
  rfl

theorem contribution_withGrow (space : Sides Space) :
    f.contribution space (m.withGrow g) =
      ((f.contribution space m).1, (f.contribution space m).2.withGrow g) := by
  rw [contribution_eq, contribution_eq, f.pinned_withGrow hm]
  cases f.pinned m <;> rfl

theorem contributed_withGrow {c : Float32} (h : m.strains k c = false) :
    contributed (m.withGrow g) c = contributed m c := by
  obtain ⟨hgrow, hgrow'⟩ := Bool.or_eq_false_iff.mp h
  rw [← hm.value_eq] at hgrow'
  by_cases hdiff : 0 < c - m.basis
  · have hshare := hm.mul_div_max_eq hdiff hgrow hgrow'
    have hdiff' : 0 < c - (m.withGrow g).basis := hdiff
    simp only [contributed, if_pos hdiff, if_pos hdiff']
    exact congrArg (m.basis + ·) hshare
  · have hdiff' : ¬0 < c - (m.withGrow g).basis := hdiff
    simp only [contributed, if_neg hdiff, if_neg hdiff']
    rfl

theorem share_withGrow {space : Sides Space}
    (h : m.strains k (f.contribution space m).1 = false) :
    (f.share space (m.withGrow g)).1 = (f.share space m).1 := by
  rw [share_fst, share_fst, f.contribution_withGrow hm, contributed_withGrow hm h]

end Frame

end

namespace Frame

/-- The container's length along the line is left to the contents of its items. -/
def leavesOpen (space : Sides Space) : Bool :=
  (f.outer.get f.axis).isNone && (space.get f.axis).known.isNone

/-- The line asks for what its items add to its length, and one of them strains. -/
def strains (k : ℤ) (r : Request) (ms : List Member) : Bool :=
  let space := f.itemSpace r.space
  f.leavesOpen space &&
    (ms.map (f.findBasis space)).any fun m => m.strains k (f.contribution space m).1

/-- The growth of the items has no part in the length, unless one of them strains. -/
theorem outerMain_regrown {space : Sides Space}
    (hstrains : (f.leavesOpen space &&
      ms.any fun m => m.strains k (f.contribution space m).1) = false)
    (h : Regrown k ms ms') :
    (f.outerMain space ms').1 = (f.outerMain space ms).1 ∧
      Regrown k (f.outerMain space ms).2 (f.outerMain space ms').2 := by
  cases houter : f.outer.get f.axis with
  | some v =>
    simp only [outerMain, houter, true_and]
    exact h
  | none =>
    simp only [outerMain, houter]
    cases hspace : space.get f.axis with
    -- in definite room only the items' bases count
    | definite v =>
      have hlengths : (ms'.map fun m =>
          Number.max (m.basis + m.margins.get f.axis) (m.insets.get f.axis)) =
            ms.map fun m => Number.max (m.basis + m.margins.get f.axis) (m.insets.get f.axis) :=
        map_eq_of_regrown h.members fun _ _ => rfl
      simp only [mainSize, hspace, hlengths, true_and]
      exact h
    | minContent | maxContent =>
      have hopen : (space.get f.axis).known = none := by rw [hspace]; rfl
      have hopen' : f.leavesOpen space = true := by rw [leavesOpen, houter, hopen]; rfl
      rw [hopen', Bool.true_and, List.any_eq_false] at hstrains
      have hmembers := (List.forall₂_and_left ms ms').mpr ⟨hstrains, h.members⟩
      have hshares : ms'.map (fun m => (f.share space m).1) =
          ms.map fun m => (f.share space m).1 := by
        refine map_eq_of_forall₂ hmembers ?_
        rintro m _ ⟨hm, g, hg, rfl⟩
        exact f.share_withGrow hg (Bool.eq_false_iff.mpr hm)
      simp only [f.mainSize_of_open hopen, List.map_map, Function.comp_def, hshares, true_and]
      refine h.map (fun m g hm => ?_) (f.grow_share space) (f.grow_share space)
      rw [share, share, f.contribution_withGrow hm]

end Frame

/-! ## 5. The size of a line -/

namespace Frame

theorem forall₂_placeMain (h : List.Forall₂ (Member.Regrown k) ms ms') (inner : Float32) :
    List.Forall₂ (Member.Regrown k) (f.placeMain inner ms) (f.placeMain inner ms') := by
  have hlength := h.length_eq
  have houter : ms'.map (fun m => m.outerTarget.get f.axis) =
      ms.map (fun m => m.outerTarget.get f.axis) := map_eq_of_regrown h fun _ _ => rfl
  cases h with
  | nil => exact .nil
  | cons hm hrest =>
    obtain ⟨g, hg, rfl⟩ := hm
    simp only [placeMain, houter, hlength]
    exact .cons ⟨g, hg, rfl⟩ (forall₂_regrown_map_same hrest fun _ _ => rfl)

theorem lineCross_regrown (h : List.Forall₂ (Member.Regrown k) ms ms') :
    f.lineCross ms' = f.lineCross ms := by
  have hcross : ms'.map Member.outerCrossLikely = ms.map Member.outerCrossLikely :=
    map_eq_of_regrown h fun _ _ => rfl
  have hlargest (ns : List Member) :
      ns.foldl (fun w m => Number.max w m.outerCrossLikely) 0 =
        (ns.map Member.outerCrossLikely).foldl Number.max 0 := List.foldl_map.symm
  simp only [lineCross, hlargest, hcross]

theorem arrange_regrown (h : Regrown k ms ms') (space : Sides Space)
    (outerMain innerMain : Float32) :
    (f.arrange space outerMain innerMain ms').1 = (f.arrange space outerMain innerMain ms).1 ∧
      List.Forall₂ (Member.Regrown k) (f.arrange space outerMain innerMain ms).2
        (f.arrange space outerMain innerMain ms').2 := by
  have hcross := forall₂_regrown_map_same (h.resolveMain f innerMain).members
    (fun m g => f.findCross_withGrow m g space outerMain)
  have hline := f.lineCross_regrown hcross
  simp only [arrange, hline, true_and]
  generalize f.lineCross _ = line
  have hset := forall₂_regrown_map_same hcross (fun m g => f.setCross_withGrow m g line)
  exact forall₂_regrown_map_same (f.forall₂_placeMain hset innerMain)
    (fun m g => f.placeCross_withGrow m g line)

theorem putAll_regrown (h : List.Forall₂ (Member.Regrown k) ms ms') (inner : Sides Known)
    (outer : Sides Float32) (cursor : Float32) :
    f.putAll inner outer cursor ms' = f.putAll inner outer cursor ms := by
  induction h generalizing cursor with
  | nil => rfl
  | cons hm _ ih =>
    obtain ⟨g, -, rfl⟩ := hm
    rw [putAll, putAll, Member.ask_withGrow]
    exact congrArg (List.cons _) (ih _)

/-- Unless one of the items strains, the line is laid out alike. -/
theorem lay_regrown {r : Request} (hstrains : f.strains k r ms = false) (h : Regrown k ms ms') :
    f.lay r ms' = f.lay r ms := by
  have hbasis : Regrown k (ms.map (f.findBasis (f.itemSpace r.space)))
      (ms'.map (f.findBasis (f.itemSpace r.space))) :=
    h.map (fun m g _ => f.findBasis_withGrow m g _)
      (grow_of_withGrow fun m g => f.findBasis_withGrow m g _)
      (grow_of_withGrow fun m g => f.findBasis_withGrow m g _)
  obtain ⟨hlength, hmembers⟩ := f.outerMain_regrown hstrains hbasis
  simp only [lay]
  generalize f.outerMain _ (ms.map _) = main at hlength hmembers ⊢
  generalize f.outerMain _ (ms'.map _) = main' at hlength hmembers ⊢
  obtain ⟨length, ns⟩ := main
  obtain ⟨length', ns'⟩ := main'
  obtain rfl : length' = length := hlength
  obtain ⟨hsize, harranged⟩ := (f.withInner (f.innerMain length')).arrange_regrown hmembers
    (f.itemSpace r.space) length' (f.innerMain length')
  have hmemo (m : Member) (g : Float32) : (m.withGrow g).memo = m.memo := rfl
  have hmemos := map_eq_of_regrown harranged hmemo
  simp only [finish, hsize, hmemos, Frame.putAll_regrown _ harranged]

/-- Of two lines with proportional growth both strain or neither does. -/
theorem strains_regrown (h : Regrown k ms ms') (r : Request) :
    f.strains (-k) r ms' = f.strains k r ms := by
  have hany {α : Type} (xs : List α) (p : α → Bool) : xs.any p = (xs.map p).any id := by
    rw [List.any_map]
    rfl
  have hbasis := forall₂_regrown_map_same h.members (fun m g =>
    f.findBasis_withGrow m g (f.itemSpace r.space))
  have hmembers := map_eq_of_forall₂ hbasis
    (f := fun m => m.strains k (f.contribution (f.itemSpace r.space) m).1)
    (g := fun m => m.strains (-k) (f.contribution (f.itemSpace r.space) m).1) (by
      rintro m _ ⟨g, hg, rfl⟩
      rw [f.contribution_withGrow hg, Member.strains_withGrow hg])
  simp only [strains, hany _ (fun m => Member.strains _ m _), hmembers]

end Frame

section

variable {cs cs' : List (ItemStyle × Sizer)}

/-- The same children, with the growth of all multiplied by one power of two. -/
structure ChildrenRegrown (k : ℤ) (cs cs' : List (ItemStyle × Sizer)) : Prop where
  children : List.Forall₂
    (fun c c' => ∃ g, Proportional k c.1.grow g ∧ c' = (c.1.withGrow g, c.2)) cs cs'
  isFinite_left : (Number.sum (cs.map (·.1.grow))).isFinite
  isFinite_right : (Number.sum (cs'.map (·.1.grow))).isFinite

theorem growths_zipWith_sublist (align : Align) (cs : List (ItemStyle × Sizer))
    (memos : List Memo) :
    (growths (cs.zipWith (fun c memo => Member.of f align c.1 c.2 memo) memos)).Sublist
      (cs.map (·.1.grow)) := by
  induction cs generalizing memos with
  | nil => exact List.Sublist.refl []
  | cons c cs ih =>
    cases memos with
    | nil => exact List.nil_sublist _
    | cons memo memos => exact (ih memos).cons_cons c.1.grow

theorem ChildrenRegrown.members (h : ChildrenRegrown k cs cs') (align : Align)
    (memos : List Memo) :
    Regrown k (cs.zipWith (fun c memo => Member.of f align c.1 c.2 memo) memos)
      (cs'.zipWith (fun c memo => Member.of f align c.1 c.2 memo) memos) := by
  obtain ⟨hchildren, hleft, hright⟩ := h
  have hgrowths : List.Forall₂ (Proportional k) (cs.map (·.1.grow)) (cs'.map (·.1.grow)) := by
    rw [List.forall₂_map_left_iff, List.forall₂_map_right_iff]
    refine hchildren.imp ?_
    rintro c _ ⟨g, hg, rfl⟩
    exact hg
  refine ⟨?_,
    Number.isFinite_sum_of_sublist (growths_zipWith_sublist f align cs memos)
      (Proportional.forall_nonneg hgrowths) hleft,
    Number.isFinite_sum_of_sublist (growths_zipWith_sublist f align cs' memos)
      (Proportional.forall_nonneg (Proportional.forall₂_symm hgrowths)) hright⟩
  clear hleft hright hgrowths
  induction hchildren generalizing memos with
  | nil => exact .nil
  | cons hc _ ih =>
    obtain ⟨g, hg, rfl⟩ := hc
    cases memos with
    | nil => exact .nil
    | cons memo memos => exact .cons ⟨g, hg, rfl⟩ (ih memos)

/-- One of the children strains when a line is asked for its size. -/
def strains (k : ℤ) (style : ItemStyle) (axis : Axis) (justify : Justify) (align : Align)
    (cs : List (ItemStyle × Sizer)) (r : Request) (memos : List Memo) : Bool :=
  let f := Frame.ofRequest style axis justify r
  f.strains k r (cs.zipWith (fun c memo => Member.of f align c.1 c.2 memo) memos)

theorem strains_regrown (h : ChildrenRegrown k cs cs') (style : ItemStyle) (axis : Axis)
    (justify : Justify) (align : Align) (r : Request) (memos : List Memo) :
    strains (-k) style axis justify align cs' r memos =
      strains k style axis justify align cs r memos :=
  Frame.strains_regrown _ (h.members _ align memos) r

theorem size_regrown (h : ChildrenRegrown k cs cs') {style : ItemStyle} {axis : Axis}
    {justify : Justify} {r : Request}
    {align : Align} {memos : List Memo}
    (hstrains : strains k style axis justify align cs r memos = false) :
    size style axis justify align cs' r memos = size style axis justify align cs r memos := by
  rw [size_eq, size_eq]
  simp only [Frame.lay_regrown _ hstrains (h.members _ align memos)]

end

/-! ## 6. The growth of the container itself -/

namespace Frame

def withGrow (g : Float32) : Frame := { f with style := f.style.withGrow g }

variable (g : Float32)

theorem rounds_withGrow (inner room : Float32) (growing : Bool) (n : ℕ) (ms : List Member) :
    (f.withGrow g).rounds inner room growing n ms = f.rounds inner room growing n ms := by
  induction n generalizing ms with
  | zero => rfl
  | succ n ih =>
    rw [rounds, rounds, ih]
    rfl

theorem arrange_withGrow (space : Sides Space) (outerMain innerMain : Float32)
    (ms : List Member) :
    (f.withGrow g).arrange space outerMain innerMain ms =
      f.arrange space outerMain innerMain ms := by
  have hmain : (f.withGrow g).resolveMain innerMain ms = f.resolveMain innerMain ms :=
    f.rounds_withGrow g _ _ _ _ _
  rw [arrange, hmain]
  rfl

theorem putAll_withGrow (inner : Sides Known) (outer : Sides Float32) (cursor : Float32)
    (ms : List Member) :
    (f.withGrow g).putAll inner outer cursor ms = f.putAll inner outer cursor ms := by
  induction ms generalizing cursor with
  | nil => rfl
  | cons m rest ih =>
    rw [putAll, putAll]
    exact congrArg (List.cons _) (ih _)

theorem lay_withGrow (r : Request) (ms : List Member) : (f.withGrow g).lay r ms = f.lay r ms := by
  have hspace : (f.withGrow g).itemSpace = f.itemSpace := rfl
  have hbasis : (f.withGrow g).findBasis = f.findBasis := rfl
  have hmain : (f.withGrow g).outerMain = f.outerMain := rfl
  have hlength : (f.withGrow g).innerMain = f.innerMain := rfl
  have hinner (length : Float32) :
      (f.withGrow g).withInner length = (f.withInner length).withGrow g := rfl
  simp only [lay, finish, hspace, hbasis, hmain, hlength, hinner, arrange_withGrow, putAll_withGrow]
  rfl

end Frame

theorem size_withGrow (style : ItemStyle) (g : Float32) (axis : Axis) (justify : Justify)
    (align : Align) (children : List (ItemStyle × Sizer)) (r : Request) (memos : List Memo) :
    size (style.withGrow g) axis justify align children r memos =
      size style axis justify align children r memos := by
  have hframe : Frame.ofRequest (style.withGrow g) axis justify r =
      (Frame.ofRequest style axis justify r).withGrow g := rfl
  rw [size_eq, size_eq]
  simp only [hframe, Frame.lay_withGrow]
  rfl

end Line

/-! ## 7. Items -/

section

variable (style : ItemStyle) (g : Float32)

theorem overlay_size_withGrow (align : Sides Align) (children : List (ItemStyle × Sizer))
    (r : Request) (memos : List Memo) :
    Overlay.size (style.withGrow g) align children r memos =
      Overlay.size style align children r memos := by
  have hrequest : Overlay.Frame.ofRequest (style.withGrow g) r =
      let f := Overlay.Frame.ofRequest style r
      { f with style := style.withGrow g } := rfl
  have houter : Overlay.outerSize (style.withGrow g) r = Overlay.outerSize style r := rfl
  have htrack (space : Sides Space) (inner : Sides Known) :
      (Overlay.Frame.mk (style.withGrow g) space inner).track =
        (Overlay.Frame.mk style space inner).track := rfl
  have hretake (space : Sides Space) (inner : Sides Known) :
      (Overlay.Frame.mk (style.withGrow g) space inner).retake =
        (Overlay.Frame.mk style space inner).retake := by
    funext columns rows ms
    simp only [Overlay.Frame.retake, Overlay.Frame.retakeRow, htrack]
  have hpadding : (style.withGrow g).padding = style.padding := rfl
  have hborder : (style.withGrow g).border = style.border := rfl
  simp only [Overlay.size, Overlay.lay, Overlay.Frame.withColumn, Overlay.Frame.withRow,
    Overlay.Frame.finish, hrequest, houter, htrack, hretake, hpadding, hborder]
  rfl

/-- An item grows in its parent only. -/
theorem containerSizer_withGrow (flow : Flow) (children : List (ItemStyle × Sizer)) :
    containerSizer (style.withGrow g) flow children = containerSizer style flow children := by
  have hleaf : leafSizer (style.withGrow g) emptyContent = leafSizer style emptyContent := rfl
  unfold containerSizer
  cases flow with
  | line axis justify align => simp only [hleaf, Line.size_withGrow]
  | overlay align => simp only [hleaf, overlay_size_withGrow]

end

namespace Item

def withGrow (g : Float32) : Item → Item
  | container style flow children => container (style.withGrow g) flow children
  | text style run => text (style.withGrow g) run
  | solid style => solid (style.withGrow g)

variable (g : Float32) (item : Item)

theorem style_withGrow : (item.withGrow g).style = item.style.withGrow g := by
  cases item <;> rfl

theorem sizer_withGrow (measure : Measurer) :
    (item.withGrow g).sizer measure = item.sizer measure := by
  cases item with
  | container style flow children => rw [withGrow, sizer, sizer, containerSizer_withGrow]
  | text | solid => rfl

theorem withGrow_self : item.withGrow item.style.grow = item := by
  cases item <;> rfl

theorem memo_withGrow : (item.withGrow g).memo = item.memo := by
  cases item <;> rfl

end Item

end ContentCard.Layout
