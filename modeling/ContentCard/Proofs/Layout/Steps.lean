import ContentCard.Proofs.Layout.Records

/-!
# Steps of a layout

A layout is made of steps, which change the members of a container and may answer something.  Of
each step two things are shown (`Watch.Step`): it keeps the properties of the members' records that
the members' sizers keep; and if the members of two containers are alike but for their sizers, and
those of the first heed those of the second, then the step goes the same way in both, unless it
leaves the first with a record that the layout has halted at.  Steps in a row have both from their
parts (`Watch.Step.bind`).
-/

namespace ContentCard.Layout

/-! ## 1. Steps in a row -/

/-- What is watched of the states of a layout: the properties that hold of a state, of which some
hold of halted states only, and when two states are alike. -/
structure Watch (S : Type) {ι : Type} (Halting : ι → Prop) where
  Holds : S → ι → Prop
  exists_holds : ∀ s, ∃ i, Holds s i
  Alike : S → S → Prop

namespace Watch

variable {S T U α β ι : Type} {Halting : ι → Prop} {A : Watch S Halting} {B : Watch T Halting}
  {C : Watch U Halting}

/-- The layout has halted at the state. -/
def Stuck (A : Watch S Halting) (s : S) : Prop := ∃ i, A.Holds s i ∧ Halting i

/-- A step that keeps properties, and goes the same way from states that are alike, unless the first
one gets stuck. -/
structure Step (A : Watch S Halting) (B : Watch T Halting) (F : S → α × T) : Prop where
  holds : ∀ {s i}, A.Holds s i → B.Holds (F s).2 i
  alike : ∀ {s' s}, A.Alike s' s →
    B.Stuck (F s').2 ∨ (F s').1 = (F s).1 ∧ B.Alike (F s').2 (F s).2

namespace Step

theorem congr {F G : S → α × T} (h : Step A B F) (hFG : ∀ s, G s = F s) : Step A B G := by
  rwa [show G = F from funext hFG]

theorem pure (a : α) : Step A A fun s => (a, s) := ⟨id, fun h => .inr ⟨rfl, h⟩⟩

theorem read {f : S → α} (hf : ∀ {s' s}, A.Alike s' s → f s' = f s) : Step A A fun s => (f s, s) :=
  ⟨id, fun h => .inr ⟨hf h, h⟩⟩

theorem bind {F : S → α × T} {G : α → T → β × U} (hF : Step A B F) (hG : ∀ a, Step B C (G a)) :
    Step A C fun s => G (F s).1 (F s).2 where
  holds h := (hG _).holds (hF.holds h)
  alike h := by
    -- the second step keeps the property of halted states that the first one left behind
    obtain ⟨i, hi, hstuck⟩ | ⟨heq, halike⟩ := hF.alike h
    · exact .inl ⟨i, (hG _).holds hi, hstuck⟩
    · rw [heq]
      exact (hG _).alike halike

/-- A step that does one thing or another one, as it is read off the state. -/
theorem cases {κ : Type} {f : S → Option κ} {F : κ → S → α × T} {G : S → α × T}
    (hf : ∀ {s' s}, A.Alike s' s → f s' = f s) (hF : ∀ v, Step A B (F v)) (hG : Step A B G) :
    Step A B fun s => match f s with
      | some v => F v s
      | none => G s where
  holds {s i} h := by
    cases f s with
    | some v => exact (hF v).holds h
    | none => exact hG.holds h
  alike {s' s} h := by
    rw [hf h]
    cases f s with
    | some v => exact (hF v).alike h
    | none => exact hG.alike h

/-- A step that is taken only if need be. -/
theorem onlyIf {F : S → α × S} (hF : Step A A F) (a : α) (needed : Bool) :
    Step A A fun s => match needed with
      | true => F s
      | false => (a, s) := by
  cases needed with
  | true => exact hF
  | false => exact .pure a

end Step

/-- Many states at once, of which one may be stuck. -/
def list (A : Watch S Halting) : Watch (List S) fun is : List ι => ∃ i ∈ is, Halting i where
  Holds := List.Forall₂ A.Holds
  exists_holds ss := by
    induction ss with
    | nil => exact ⟨[], .nil⟩
    | cons s rest ih =>
      obtain ⟨i, hi⟩ := A.exists_holds s
      obtain ⟨is, his⟩ := ih
      exact ⟨i :: is, .cons hi his⟩
  Alike := List.Forall₂ A.Alike

/-- If one of the states is stuck, all of them together are. -/
theorem stuck_cons {s : S} {ss : List S} (h : A.Stuck s ∨ A.list.Stuck ss) :
    A.list.Stuck (s :: ss) := by
  obtain ⟨i, hi, hstuck⟩ | ⟨is, his, j, hj, hstuck⟩ := h
  · obtain ⟨is, his⟩ := A.list.exists_holds ss
    exact ⟨i :: is, .cons hi his, i, List.mem_cons_self, hstuck⟩
  · obtain ⟨i, hi⟩ := A.exists_holds s
    exact ⟨i :: is, .cons hi his, j, List.mem_cons_of_mem _ hj, hstuck⟩

/-- The same step with every state. -/
theorem Step.map {g : S → α × T} (h : Step A B g) :
    Step A.list B.list fun ss => ((ss.map g).map Prod.fst, (ss.map g).map Prod.snd) where
  holds hs := List.forall₂_map_left_iff.mpr
    (List.forall₂_map_left_iff.mpr (hs.imp fun _ _ hi => h.holds hi))
  alike hs := by
    induction hs with
    | nil => exact .inr ⟨rfl, .nil⟩
    | cons hs _ ih =>
      obtain hstuck | ⟨heq, halike⟩ := h.alike hs
      · exact .inl (stuck_cons (.inl hstuck))
      · obtain hstuck | ⟨heqs, halikes⟩ := ih
        · exact .inl (stuck_cons (.inr hstuck))
        · exact .inr ⟨congrArg₂ List.cons heq heqs, .cons halike halikes⟩

theorem Step.mapState {g : S → T} (h : Step A B fun s => ((), g s)) :
    Step A.list B.list fun ss => ((), ss.map g) := by
  have hmap := h.map.bind fun _ => .pure ()
  simp only [List.map_map] at hmap
  exact hmap

end Watch

/-- A record that is not asked any more. -/
def Memo.watch : Watch Memo Memo.Halting where
  Holds m P := P m
  exists_holds _ := ⟨fun _ => True, trivial⟩
  Alike := Eq

/-- Answers nothing and remembers nothing. -/
def Sizer.idle : Sizer := fun _ m => (⟨0, 0⟩, m)

/-- Asked alike, a careful sizer answers alike or leaves a record that has halted. -/
theorem Sizer.Heeds.ask_cases {careful sizer : Sizer} {shape m : Memo}
    (h : careful.Heeds sizer shape) (hm : m.HasShape shape) (r : Request) :
    (careful.Keeps (·.Continues (careful r m).2) ∧ Memo.Halting (·.Continues (careful r m).2)) ∨
      careful r m = sizer r m ∧ (careful r m).2.HasShape shape := by
  have hshape := (h.advances r m hm).hasShape_of hm
  cases hruns : (careful r m).2.isHalted with
  | true => exact .inl ⟨h.advances.keeps hshape, Memo.halting_continues hruns⟩
  | false => exact .inr ⟨h.eq_of_runs r m hm hruns, hshape⟩

/-! ## 2. Members of a container -/

/-- How the members of a container are asked. -/
structure Asking (M : Type) where
  sizer : M → Sizer
  memo : M → Memo
  withMemo : M → Memo → M
  /-- The member without its sizer. -/
  bare : M → M
  /-- The container may halt at its members. -/
  Halts : Prop
  memo_bare : ∀ m, memo (bare m) = memo m
  sizer_withMemo : ∀ m x, sizer (withMemo m x) = sizer m
  memo_withMemo : ∀ m x, memo (withMemo m x) = x
  bare_withMemo : ∀ m x, bare (withMemo m x) = withMemo (bare m) x

namespace Asking

open Watch (Step)

variable {M α : Type} (k : Asking M)

def ask (r : Request) (m : M) : Sides Float32 × M :=
  ((k.sizer m r (k.memo m)).1, k.withMemo m (k.sizer m r (k.memo m)).2)

/-- Properties of the members' records, which are not lost where the container may halt, and members
that are alike with sizers of which one heeds the other. -/
def watch : Watch M Memo.Halting where
  Holds m P := (k.sizer m).Keeps P ∧ (k.Halts → Memo.StaysHalting P) ∧ P (k.memo m)
  exists_holds _ := ⟨fun _ => True, ⟨fun _ _ _ => trivial, fun _ _ _ => trivial⟩,
    fun _ _ _ => trivial, trivial⟩
  Alike m' m := k.bare m' = k.bare m ∧
    ∃ shape, (k.sizer m').Heeds (k.sizer m) shape ∧ (k.memo m).HasShape shape

theorem read_eq (read : M → α) (hread : ∀ m, read (k.bare m) = read m) {m' m : M}
    (h : k.watch.Alike m' m) : read m' = read m := by
  rw [← hread m', h.1, hread]

theorem read_step (read : M → α) (hread : ∀ m, read (k.bare m) = read m) :
    Step k.watch k.watch fun m => (read m, m) := .read (k.read_eq read hread)

theorem memo_eq {m' m : M} (h : k.watch.Alike m' m) : k.memo m' = k.memo m :=
  k.read_eq k.memo k.memo_bare h

/-- A step that asks for nothing. -/
theorem modify_step (g : M → M) (hbare : ∀ m, k.bare (g m) = g (k.bare m))
    (hsizer : ∀ m, k.sizer (g m) = k.sizer m) (hmemo : ∀ m, k.memo (g m) = k.memo m) :
    Step k.watch k.watch fun m => ((), g m) where
  holds {m P} h := ⟨hsizer m ▸ h.1, h.2.1, hmemo m ▸ h.2.2⟩
  alike {m' m} h := by
    obtain ⟨heq, shape, hheeds, hshape⟩ := h
    refine .inr ⟨rfl, ?_, shape, ?_, ?_⟩
    · rw [hbare, heq, hbare]
    · rwa [hsizer, hsizer]
    · rwa [hmemo]

/-- The member with the careful sizer is left as the other one, or with a record that has halted. -/
theorem ask_step (req : M → Request) (hreq : ∀ m, req (k.bare m) = req m) :
    Step k.watch k.watch fun m => k.ask (req m) m where
  holds {m P} h := by
    have hasked := h.1.ask (req m) _ h.2.2
    rw [← k.memo_withMemo m (k.sizer m (req m) (k.memo m)).2] at hasked
    exact ⟨k.sizer_withMemo m _ ▸ h.1, h.2.1, hasked⟩
  alike {m' m} h := by
    have hr : req m' = req m := k.read_eq req hreq h
    have hmemo := k.memo_eq h
    obtain ⟨heq, shape, hheeds, hshape⟩ := h
    simp only [ask, hr, hmemo]
    obtain ⟨hkeeps, hhalting⟩ | ⟨hanswer, hshape'⟩ := hheeds.ask_cases hshape (req m)
    -- what is left behind has the property to go on with a record that has halted
    · refine .inl ⟨_, ⟨?_, fun _ => Memo.staysHalting_continues _, ?_⟩, hhalting⟩
      · rwa [k.sizer_withMemo]
      · rw [k.memo_withMemo]
        exact Memo.continues_refl _
    · rw [hanswer] at hshape' ⊢
      refine .inr ⟨rfl, ?_, shape, ?_, ?_⟩
      · rw [k.bare_withMemo, heq, k.bare_withMemo]
      · rwa [k.sizer_withMemo, k.sizer_withMemo]
      · rwa [k.memo_withMemo]

theorem leave_step (place : M → Place) (hplace : ∀ m, place (k.bare m) = place m) :
    Step k.watch Memo.watch fun m => ((), (k.memo m).putAt (place m)) where
  holds h := h.1.putAt _ _ h.2.2
  alike h := by
    refine .inr ⟨rfl, ?_⟩
    show Memo.putAt _ _ = Memo.putAt _ _
    rw [k.memo_eq h, k.read_eq place hplace h]

theorem memo_step : Step k.watch Memo.watch fun m => ((), k.memo m) :=
  ⟨fun h => h.2.2, fun h => .inr ⟨rfl, k.memo_eq h⟩⟩

end Asking

/-! ## 3. Items in a line -/

namespace Line

open Watch (Step)

/-- The member without its sizer. -/
abbrev Member.bare (m : Member) : Member := m.mapSizer fun _ => .idle

/-- A line does not halt. -/
def asking : Asking Member where
  sizer := Member.sizer
  memo := Member.memo
  withMemo m x := { m with memo := x }
  bare := Member.bare
  Halts := False
  memo_bare _ := rfl
  sizer_withMemo _ _ := rfl
  memo_withMemo _ _ := rfl
  bare_withMemo _ _ := rfl

abbrev watch : Watch Member Memo.Halting := asking.watch

variable {α : Type}

variable (f : Frame) (space : Sides Space)

theorem basisOf_step : Step watch watch (f.basisOf space) := by
  have h := Step.cases (asking.read_eq (fun m => m.style.basis.or (m.size.get f.axis)) fun _ => rfl)
    (fun v => .pure v)
    ((asking.ask_step (f.basisRequest space (f.contentSpace space)) fun _ => rfl).bind
      fun size => .pure (size.get f.axis))
  refine h.congr fun m => ?_
  unfold Frame.basisOf
  cases m.style.basis.or (m.size.get f.axis) <;> rfl

theorem leastOf_step : Step watch watch (f.leastOf space) := by
  have h := Step.cases (asking.read_eq (fun m => m.min.get f.axis) fun _ => rfl)
    (fun v => .pure v) ((asking.ask_step (f.basisRequest space .minContent) fun _ => rfl).bind
      fun size => asking.read_step (fun m => f.leastLength m size) fun _ => rfl)
  refine h.congr fun m => ?_
  unfold Frame.leastOf
  cases m.min.get f.axis <;> rfl

theorem findBasis_step : Step watch watch fun m => ((), f.findBasis space m) := by
  have h := (basisOf_step f space).bind fun basis => (leastOf_step f space).bind fun least =>
    asking.modify_step (f.withBasis basis least) (by rintro ⟨⟩; rfl) (fun _ => rfl) fun _ => rfl
  exact h.congr fun m => congrArg (Prod.mk ()) (f.findBasis_eq space m)

theorem contribution_step : Step watch watch (f.contribution space) := by
  have h := Step.cases (asking.read_eq f.pinned fun _ => rfl) (fun v => .pure v)
    ((asking.ask_step (f.contributionRequest space) fun _ => rfl).bind fun size =>
      asking.read_step (fun m => f.contentLength m size) fun _ => rfl)
  refine h.congr fun m => ?_
  rw [f.contribution_eq]
  cases f.pinned m <;> rfl

theorem findCross_step (outerMain : Float32) :
    Step watch watch fun m => ((), f.findCross space outerMain m) := by
  have hcross := Step.cases (asking.read_eq (fun m => m.size.get f.cross) fun _ => rfl)
    (fun v => asking.read_step (fun m =>
      Number.max (atLeast v (m.min.get f.cross)) (m.insets.get f.cross)) fun _ => rfl)
    ((asking.ask_step (f.crossRequest space outerMain) fun _ => rfl).bind fun size =>
      asking.read_step (fun m =>
        Number.max (atLeast (size.get f.cross) (m.min.get f.cross)) (m.insets.get f.cross))
          fun _ => rfl)
  have h := hcross.bind fun cross =>
    asking.modify_step (f.withCross cross) (fun _ => rfl) (fun _ => rfl) fun _ => rfl
  refine h.congr fun m => ?_
  unfold Frame.findCross
  cases m.size.get f.cross <;> rfl

/-! Steps that look at all members. -/

theorem map_bare_eq {ms' ms : List Member} (h : watch.list.Alike ms' ms) :
    ms'.map Member.bare = ms.map Member.bare :=
  (map_eq_of_forall₂ h fun _ _ h => h.1.symm).symm

theorem readAll_step (read : List Member → α) (hread : ∀ ms, read (ms.map Member.bare) = read ms) :
    Step watch.list watch.list fun ms => (read ms, ms) :=
  .read fun h => by rw [← hread, map_bare_eq h, hread]

/-- Lists of members are alike if they are alike without their sources, and the sources are. -/
theorem alike_iff {ms' ms : List Member} :
    watch.list.Alike ms' ms ↔ ms'.map Member.bare = ms.map Member.bare ∧
      List.Forall₂ (fun (s' s : Sizer × Memo) => ∃ shape, s'.1.Heeds s.1 shape ∧ s.2.HasShape shape)
        (ms'.map Member.source) (ms.map Member.source) := by
  constructor
  · intro h
    refine ⟨map_bare_eq h, ?_⟩
    rw [List.forall₂_map_left_iff, List.forall₂_map_right_iff]
    exact h.imp fun _ _ h => h.2
  · rintro ⟨hbare, hsource⟩
    rw [List.forall₂_map_left_iff, List.forall₂_map_right_iff] at hsource
    show List.Forall₂ watch.Alike ms' ms
    induction hsource with
    | nil => exact .nil
    | cons hm _ ih =>
      obtain ⟨hm', hrest⟩ := List.cons.inj hbare
      exact .cons ⟨hm', hm⟩ (ih hrest)

/-- A step that asks for nothing. -/
theorem modifyAll_step (g : List Member → List Member)
    (hbare : ∀ ms, g (ms.map Member.bare) = (g ms).map Member.bare)
    (hsource : ∀ ms, (g ms).map Member.source = ms.map Member.source) :
    Step watch.list watch.list fun ms => ((), g ms) where
  holds {ms Ps} h := by
    have hiff (ms : List Member) : List.Forall₂ watch.Holds ms Ps ↔
        List.Forall₂ (fun (s : Sizer × Memo) P =>
          s.1.Keeps P ∧ (asking.Halts → Memo.StaysHalting P) ∧ P s.2)
            (ms.map Member.source) Ps := by
      rw [List.forall₂_map_left_iff]
      rfl
    -- what holds is said of the sources, which stay
    show List.Forall₂ watch.Holds (g ms) Ps
    rw [hiff, hsource, ← hiff]
    exact h
  alike {ms' ms} h := by
    refine .inr ⟨rfl, ?_⟩
    rw [alike_iff] at h ⊢
    rw [← hbare, h.1, hbare, hsource, hsource]
    exact ⟨rfl, h.2⟩

theorem mainSize_step : Step watch.list watch.list (f.mainSize space) := by
  cases hs : space.get f.axis with
  -- in definite room nobody is asked
  | definite v =>
    have h := readAll_step (fun ms => (f.mainSize space ms).1) fun ms => by
      simp only [Frame.mainSize, hs, List.map_map]
      rfl
    refine h.congr fun ms => ?_
    simp only [Frame.mainSize, hs]
  | minContent | maxContent =>
    have hshare : Step watch watch (f.share space) := (contribution_step f space).bind fun c =>
      asking.read_step (fun m => Frame.contributed m c) fun _ => rfl
    have h := hshare.map.bind fun shares => .pure (f.openLength shares)
    exact h.congr fun ms => f.mainSize_of_open (by rw [hs]; rfl) ms

theorem outerMain_step : Step watch.list watch.list (f.outerMain space) := by
  cases houter : f.outer.get f.axis with
  | some v =>
    refine (Step.pure (v - f.insets.get f.axis + f.insets.get f.axis)).congr fun ms => ?_
    simp only [Frame.outerMain, houter]
  | none =>
    refine (mainSize_step f space).congr fun ms => ?_
    simp only [Frame.outerMain, houter]

theorem arrange_step (outerMain innerMain : Float32) :
    Step watch.list watch.list (f.arrange space outerMain innerMain) := by
  have hmain := modifyAll_step (f.resolveMain innerMain) (f.resolveMain_mapSizer _ innerMain)
    (f.map_source_resolveMain innerMain)
  have hline := readAll_step f.lineCross (f.lineCross_mapSizer _)
  have hset (line : Float32) :=
    (asking.modify_step (f.setCross line) (fun _ => rfl) (fun _ => rfl) fun _ => rfl).mapState
  have hplace := modifyAll_step (f.placeMain innerMain) (f.placeMain_mapSizer _ innerMain)
    (f.map_source_placeMain innerMain)
  have hcross (line : Float32) :=
    (asking.modify_step (f.placeCross line) (fun _ => rfl) (fun _ => rfl) fun _ => rfl).mapState
  exact hmain.bind fun _ => (findCross_step f space outerMain).mapState.bind fun _ =>
    hline.bind fun line => (hset line).bind fun _ => hplace.bind fun _ =>
      (hcross line).bind fun _ => .pure (Sides.along f.axis outerMain (Number.max
        (atLeast ((f.outer.get f.cross).getD (line + f.insets.get f.cross)) (f.min.get f.cross))
        (f.insets.get f.cross)))

theorem putOne_step (inner : Sides Known) (outer : Sides Float32) (cursor : Float32) :
    Step watch Memo.watch (f.putOne inner outer cursor) := by
  have h := (asking.ask_step (Frame.putRequest inner outer) fun _ => rfl).bind fun size =>
    (asking.read_step (f.cursorAfter size cursor) fun _ => rfl).bind fun cursor' =>
      (asking.leave_step (f.placeOf size cursor) fun _ => rfl).bind fun _ => .pure cursor'
  exact h

theorem putAll_step (inner : Sides Known) (outer : Sides Float32) (cursor : Float32) :
    Step watch.list Memo.watch.list fun ms => ((), f.putAll inner outer cursor ms) where
  holds {ms Ps} h := by
    show List.Forall₂ Memo.watch.Holds (f.putAll inner outer cursor ms) Ps
    induction h generalizing cursor with
    | nil => exact .nil
    | cons hm _ ih => exact .cons ((putOne_step f inner outer cursor).holds hm) (ih _)
  alike {ms' ms} h := by
    show Memo.watch.list.Stuck (f.putAll inner outer cursor ms') ∨ _ ∧
      List.Forall₂ Memo.watch.Alike (f.putAll inner outer cursor ms')
        (f.putAll inner outer cursor ms)
    induction h generalizing cursor with
    | nil => exact .inr ⟨rfl, .nil⟩
    | @cons m' m _ _ hm _ ih =>
      rw [Frame.putAll_cons, Frame.putAll_cons]
      obtain hstuck | ⟨hcursor, hmemo⟩ := (putOne_step f inner outer cursor).alike hm
      · exact .inl (Watch.stuck_cons (.inl hstuck))
      -- the first item answers alike, so the others begin at the same place
      · rw [hcursor]
        obtain hstuck | ⟨-, hmemos⟩ := ih (f.putOne inner outer cursor m).1
        · exact .inl (Watch.stuck_cons (.inr hstuck))
        · exact .inr ⟨rfl, .cons hmemo hmemos⟩

theorem finish_step (r : Request) (size : Sides Float32) :
    Step watch.list Memo.watch.list fun ms => ((), f.finish r size ms) := by
  unfold Frame.finish
  cases r.final with
  | true => exact putAll_step f _ _ _
  | false => exact asking.memo_step.mapState

theorem lay_step (r : Request) : Step watch.list Memo.watch.list (f.lay r) := by
  have hbasis := (findBasis_step f (f.itemSpace r.space)).mapState
  have harrange (main : Float32) :=
    arrange_step (f.withInner (f.innerMain main)) (f.itemSpace r.space) main (f.innerMain main)
  have hfinish (main : Float32) (size : Sides Float32) :=
    (finish_step (f.withInner (f.innerMain main)) r size).bind fun _ => .pure size
  have h := hbasis.bind fun _ => (outerMain_step f (f.itemSpace r.space)).bind fun main =>
    (harrange main).bind (hfinish main)
  refine h.congr fun ms => ?_
  unfold Frame.lay
  rfl

end Line

/-! ## 4. Items on top of each other -/

namespace Overlay

open Watch (Step)

/-- The member without its sizer. -/
abbrev Member.bare (m : Member) : Member := { m with sizer := .idle }

/-- An overlay may halt. -/
def asking : Asking Member where
  sizer := Member.sizer
  memo := Member.memo
  withMemo m x := { m with memo := x }
  bare := Member.bare
  Halts := True
  memo_bare _ := rfl
  sizer_withMemo _ _ := rfl
  memo_withMemo _ _ := rfl
  bare_withMemo _ _ := rfl

abbrev watch : Watch Member Memo.Halting := asking.watch

theorem halt_step : Step watch watch fun m => ((), m.halt) where
  holds h := ⟨h.1, h.2.1, h.2.1 trivial _ h.2.2⟩
  alike {m' m} h := by
    obtain ⟨heq, shape, hheeds, hshape⟩ := h
    refine .inr ⟨rfl, ?_, shape, hheeds, m.memo.halt_continues.hasShape_of hshape⟩
    show m'.bare.halt = m.bare.halt
    exact congrArg Member.halt heq

variable (axis : Axis) (cell : Sides Known)

theorem measure_step (otherwise : Space) : Step watch watch (·.measure axis cell otherwise) :=
  (asking.ask_step (fun m => m.measureRequest cell otherwise) fun _ => rfl).bind fun size =>
    .pure (size.get axis)

theorem setNeeds_step (g : Needs → Needs) : Step watch watch fun m => ((), m.setNeeds axis g) :=
  asking.modify_step (·.setNeeds axis g) (fun _ => rfl) (fun _ => rfl) fun _ => rfl

/-- What a member needs is measured unless it is known. -/
theorem minContent_step : Step watch watch (·.minContent axis cell) := by
  have h := Step.cases (asking.read_eq (fun m => (m.needs.get axis).minContent) fun _ => rfl)
    (fun v => .pure v) ((measure_step axis cell .minContent).bind fun v =>
      (setNeeds_step axis ({ · with minContent := some v })).bind fun _ => .pure v)
  refine h.congr fun m => ?_
  unfold Member.minContent
  cases (m.needs.get axis).minContent <;> rfl

theorem maxContent_step : Step watch watch (·.maxContent axis cell) := by
  have h := Step.cases (asking.read_eq (fun m => (m.needs.get axis).maxContent) fun _ => rfl)
    (fun v => .pure v) ((measure_step axis cell .maxContent).bind fun v =>
      (setNeeds_step axis ({ · with maxContent := some v })).bind fun _ => .pure v)
  refine h.congr fun m => ?_
  unfold Member.maxContent
  cases (m.needs.get axis).maxContent <;> rfl

theorem least_step (inner : Sides Known) : Step watch watch (·.least axis inner cell) := by
  have hown := Step.cases (asking.read_eq (fun m => ((m.style.resolvedSize inner).get axis).or
      (m.style.resolvedMin.get axis)) fun _ => rfl)
    (fun v => .pure v) (minContent_step axis cell)
  have h := Step.cases (asking.read_eq (fun m => (m.needs.get axis).least) fun _ => rfl)
    (fun v => .pure v) (hown.bind fun v =>
      (setNeeds_step axis ({ · with least := some v })).bind fun _ => .pure v)
  refine h.congr fun m => ?_
  unfold Member.least
  cases (m.needs.get axis).least with
  | some v => rfl
  | none =>
    cases ((m.style.resolvedSize inner).get axis).or (m.style.resolvedMin.get axis) <;> rfl

theorem recheck_step : Step watch watch (·.recheck axis cell) := by
  have hbefore := asking.read_step (fun m => (m.needs.get axis).minContent) fun _ => rfl
  exact hbefore.bind fun before => (measure_step axis cell .minContent).bind fun v =>
    (setNeeds_step axis fun _ => { minContent := some v }).bind fun _ => .pure (some v != before)

theorem recheckAny_cons (m : Member) (rest : List Member) :
    recheckAny axis cell (m :: rest) =
      match (m.recheck axis cell).1 with
      | true => (true, (m.recheck axis cell).2 :: rest)
      | false => ((recheckAny axis cell rest).1,
          (m.recheck axis cell).2 :: (recheckAny axis cell rest).2) := by
  rw [recheckAny]
  cases m.recheck axis cell with
  | mk changed m => cases changed <;> rfl

/-- The members after the first that changed are left alone. -/
theorem recheckAny_step : Step watch.list watch.list (recheckAny axis cell) where
  holds {ms Ps} h := by
    induction h with
    | nil => exact .nil
    | @cons m P rest Ps hm hrest ih =>
      have hm := (recheck_step axis cell).holds hm
      rw [recheckAny_cons]
      cases (m.recheck axis cell).1 with
      | true => exact .cons hm hrest
      | false => exact .cons hm ih
  alike {ms' ms} h := by
    induction h with
    | nil => exact .inr ⟨rfl, .nil⟩
    | @cons m' m rest' rest hm hrest ih =>
      rw [recheckAny_cons, recheckAny_cons]
      -- one that got stuck stays in the list, wherever the search ends
      obtain hstuck | ⟨hchanged, hm⟩ := (recheck_step axis cell).alike hm
      · cases (m'.recheck axis cell).1 <;> exact .inl (Watch.stuck_cons (.inl hstuck))
      · rw [hchanged]
        cases (m.recheck axis cell).1 with
        | true => exact .inr ⟨rfl, .cons hm hrest⟩
        | false =>
          obtain hstuck | ⟨hchanged, hms⟩ := ih
          · exact .inl (Watch.stuck_cons (.inr hstuck))
          · exact .inr ⟨hchanged, .cons hm hms⟩

/-- In definite room an item is not asked for its least content. -/
theorem content_step (room : Space) (least margin : Float32) : Step watch watch fun m =>
    match room with
    | .definite _ => (least, m)
    | _ =>
      let asked := m.minContent axis cell
      (Number.max (asked.1 + margin) least, asked.2) := by
  cases room with
  | definite v => exact .pure least
  | minContent | maxContent =>
    exact (minContent_step axis cell).bind fun content =>
      .pure (Number.max (content + margin) least)

variable (f : Frame)

theorem wants_step : Step watch watch (f.wants axis cell) := by
  have hread := asking.read_step (fun m => m.margins.get axis) fun _ => rfl
  exact hread.bind fun margin => (least_step axis cell f.inner).bind fun least =>
    (content_step axis cell (f.space.get axis) (least + margin) margin).bind fun least =>
      (maxContent_step axis cell).bind fun most => .pure (least, most + margin)

theorem resize_step (bounds : Float32 × Float32) :
    Step watch.list watch.list (f.resize axis bounds) := by
  unfold Frame.resize
  cases Frame.maximise (f.space.get axis) bounds.1 bounds.2 with
  | some v => exact .pure (f.stretch axis v)
  | none => exact halt_step.mapState.bind fun _ => .pure bounds.1

theorem track_step (across : Known) : Step watch.list watch.list (f.track axis across) :=
  (wants_step axis (.along axis none across) f).map.bind fun wanted =>
    resize_step axis f (Frame.bounds wanted)

theorem retakeRow_step (columns rows : Float32) :
    Step watch.list watch.list (f.retakeRow columns rows) := by
  have hagain := (track_step .vertical f (some columns)).onlyIf rows
  refine ((recheckAny_step .vertical ⟨some columns, none⟩).bind hagain).congr fun ms => ?_
  unfold Frame.retakeRow
  obtain ⟨again, ms⟩ := recheckAny .vertical ⟨some columns, none⟩ ms
  cases again <;> rfl

theorem retake_step (columns rows : Float32) :
    Step watch.list watch.list (f.retake columns rows) := by
  have hboth := (track_step .horizontal f (some rows)).bind fun columns =>
    (retakeRow_step f columns rows).bind fun rows => .pure (columns, rows)
  have hagain := hboth.onlyIf (columns, rows)
  refine ((recheckAny_step .horizontal ⟨none, some rows⟩).bind hagain).congr fun ms => ?_
  unfold Frame.retake
  obtain ⟨again, ms⟩ := recheckAny .horizontal ⟨none, some rows⟩ ms
  cases again <;> rfl

theorem put_step (left top right bottom : Float32) :
    Step watch Memo.watch fun m => ((), Frame.put left top right bottom m) := by
  have hrequest := asking.read_step (Frame.putRequest ⟨right - left, bottom - top⟩) fun _ => rfl
  have h := hrequest.bind fun r => (asking.ask_step (fun _ => r) fun _ => rfl).bind fun size =>
    asking.leave_step (Frame.placeOf left top ⟨right - left, bottom - top⟩ (r.known.getD size))
      fun _ => rfl
  exact h

theorem finish_step (r : Request) (columns rows : Float32) :
    Step watch.list Memo.watch.list fun ms => ((), f.finish r columns rows ms) := by
  have hput (left top : Float32) := (retake_step f columns rows).bind fun tracks =>
    (put_step left top (left + tracks.1) (top + tracks.2)).mapState
  unfold Frame.finish
  cases r.final with
  | true => exact hput _ _
  | false => exact asking.memo_step.mapState

theorem lay_step (style : ItemStyle) (r : Request) :
    Step watch.list Memo.watch.list (lay style r) := by
  have hfinish (f : Frame) (columns rows : Float32) :=
    (finish_step f r columns rows).bind fun _ => .pure (outerSize style r columns rows)
  have hrow (f : Frame) (columns : Float32) := (track_step .vertical f (some columns)).bind
    fun rows => hfinish (f.withRow rows) columns rows
  have h := (track_step .horizontal (.ofRequest style r) none).bind fun columns =>
    hrow ((Frame.ofRequest style r).withColumn columns) columns
  refine h.congr fun ms => ?_
  unfold lay
  rfl

end Overlay

end ContentCard.Layout
