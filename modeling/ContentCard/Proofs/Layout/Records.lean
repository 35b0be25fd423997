import ContentCard.Placement
import ContentCard.Proofs.Layout.Stages

/-!
# The layout keeps one record for every node

Before the layout an item has one empty record for itself and one for every item inside
(`Item.memo`).  The layout fills these records, in whatever order it asks for sizes, but it does
nothing else with them than to ask the items: what holds of a record before and is kept by an
answer, holds of it afterwards.  So no record is added or dropped, and none that the layout has
halted at goes on.

The passes over the items are looked at once for this and for one thing more: a sizer that answers
like another one until it halts can stand in for it (`Sizer.Heeds`).
-/

namespace ContentCard.Layout

/-- What holds of the second part of a pair, once the pair is taken apart. -/
theorem of_snd {α β : Type} {P : β → Prop} {x : α × β} {a : α} {b : β} (hx : x = (a, b))
    (h : P x.2) : P b := by
  rw [hx] at h
  exact h

/-- What two lists say about a third one, they say about it when they are put together. -/
theorem forall₂_zipWith {α β γ δ : Type} {R : α → γ → Prop} {S : β → γ → Prop} {T : δ → γ → Prop}
    {f : α → β → δ} (hf : ∀ a b c, R a c → S b c → T (f a b) c) {as : List α} {bs : List β}
    {cs : List γ} (has : List.Forall₂ R as cs) (hbs : List.Forall₂ S bs cs) :
    List.Forall₂ T (as.zipWith f bs) cs := by
  induction has generalizing bs with
  | nil =>
    cases hbs
    exact .nil
  | cons ha _ ih =>
    cases hbs with
    | cons hb hbs => exact .cons (hf _ _ _ ha hb) (ih hbs)

/-- Two lists that are each related to a third one. -/
theorem forall₂_trans {α β γ : Type} {R : α → β → Prop} {S : β → γ → Prop} {T : α → γ → Prop}
    (hT : ∀ a b c, R a b → S b c → T a c) {as : List α} {bs : List β} {cs : List γ}
    (has : List.Forall₂ R as bs) (hbs : List.Forall₂ S bs cs) : List.Forall₂ T as cs := by
  induction has generalizing cs with
  | nil =>
    cases hbs
    exact .nil
  | cons ha _ ih =>
    cases hbs with
    | cons hb hbs => exact .cons (hT _ _ _ ha hb) (ih hbs)

/-! ## 1. Records without their contents -/

mutual

/-- The same records, with nothing remembered in them. -/
def Memo.erased : Memo → Memo
  | .mk _ _ ms => .mk .empty .origin (Memo.erasedAll ms)

def Memo.erasedAll : List Memo → List Memo
  | [] => []
  | m :: rest => m.erased :: Memo.erasedAll rest

end

/-- The records are those of `shape`, whatever is remembered in them. -/
def Memo.HasShape (m shape : Memo) : Prop := m.erased = shape

/-- The records have the shape, and the layout has not halted at any of them. -/
def Memo.Runs (m shape : Memo) : Prop := m.isHalted = false ∧ m.HasShape shape

/-- The records are those of `m` at a later time: the same ones, and what has halted has not gone
on. -/
structure Memo.Continues (x m : Memo) : Prop where
  hasShape : x.HasShape m.erased
  isHalted : m.isHalted → x.isHalted

namespace Memo

theorem erasedAll_eq_map (ms : List Memo) : erasedAll ms = ms.map erased := by
  induction ms with
  | nil => rfl
  | cons m rest ih => rw [erasedAll, ih, List.map_cons]

theorem areHalted_eq_any (ms : List Memo) : areHalted ms = ms.any isHalted := by
  induction ms with
  | nil => rfl
  | cons m rest ih => rw [areHalted, ih, List.any_cons]

theorem hasShape_mk_iff {c : Cache} {p : Place} {ms shapes : List Memo} :
    (mk c p ms).HasShape (mk .empty .origin shapes) ↔ List.Forall₂ HasShape ms shapes := by
  have h : ms.map erased = shapes ↔ List.Forall₂ HasShape ms shapes := by
    rw [← List.forall₂_eq_eq_eq, List.forall₂_map_left_iff]
    rfl
  rw [← h, HasShape, erased, erasedAll_eq_map]
  exact ⟨fun he => (Memo.mk.inj he).2.2, congrArg (mk .empty .origin)⟩

/-- Only the records of the children count for the shape. -/
theorem hasShape_mk_children {m shape : Memo} (c : Cache) (p : Place) :
    (mk c p m.children).HasShape shape ↔ m.HasShape shape := by
  cases m with
  | mk c' p' ms => exact Iff.rfl

theorem isHalted_mk (c : Cache) (p : Place) (ms : List Memo) :
    (mk c p ms).isHalted = (c.halted || ms.any isHalted) := by
  rw [isHalted, areHalted_eq_any]

theorem runs_mk_iff {c : Cache} {p : Place} {ms shapes : List Memo} :
    (mk c p ms).Runs (mk .empty .origin shapes) ↔
      c.halted = false ∧ List.Forall₂ Runs ms shapes := by
  have hruns : List.Forall₂ Runs ms shapes ↔
      (∀ m ∈ ms, m.isHalted = false) ∧ List.Forall₂ HasShape ms shapes :=
    List.forall₂_and_left ms shapes
  rw [Runs, isHalted_mk, hasShape_mk_iff, Bool.or_eq_false_iff, List.any_eq_false, hruns, and_assoc]
  simp only [Bool.not_eq_true]

theorem isHalted_eq (m : Memo) : m.isHalted = (m.cache.halted || m.children.any isHalted) := by
  cases m with
  | mk c p ms => exact isHalted_mk c p ms

theorem isHalted_halt (m : Memo) : m.halt.isHalted = true := isHalted_mk _ _ _

theorem continues_refl (m : Memo) : m.Continues m := ⟨rfl, id⟩

theorem Continues.trans {x y z : Memo} (h : x.Continues y) (h' : y.Continues z) :
    x.Continues z := ⟨h.hasShape.trans h'.hasShape, h.isHalted ∘ h'.isHalted⟩

theorem Continues.hasShape_of {x m shape : Memo} (h : x.Continues m) (hm : m.HasShape shape) :
    x.HasShape shape := h.hasShape.trans hm

theorem continues_mk {c : Cache} {p : Place} {xs ms : List Memo}
    (h : List.Forall₂ Continues xs ms) : (mk c p xs).Continues (mk c p ms) where
  hasShape := by
    rw [erased, erasedAll_eq_map]
    exact hasShape_mk_iff.mpr
      (List.forall₂_map_right_iff.mpr (h.imp fun _ _ hc => hc.hasShape))
  isHalted := by
    have hany : ms.any Memo.isHalted → xs.any Memo.isHalted := by
      induction h with
      | nil => exact id
      | cons hx _ ih =>
        rw [List.any_cons, List.any_cons, Bool.or_eq_true, Bool.or_eq_true]
        exact Or.imp hx.isHalted ih
    rw [isHalted_mk, isHalted_mk, Bool.or_eq_true, Bool.or_eq_true]
    exact Or.imp_right hany

theorem putAt_continues (m : Memo) (p : Place) : (m.putAt p).Continues m where
  hasShape := (hasShape_mk_children _ _).mpr rfl
  isHalted h := by rwa [putAt, isHalted_mk, ← isHalted_eq]

theorem halt_continues (m : Memo) : m.halt.Continues m :=
  ⟨(hasShape_mk_children _ _).mpr rfl, fun _ => isHalted_halt m⟩

end Memo

theorem Cache.halted_store (c : Cache) (r : Request) (size : Sides Float32) :
    (c.store r size).halted = c.halted := by
  unfold store
  extract_lets a
  split <;> rfl

/-- However it is asked, the sizer leaves a record that has the property if it had it before, and so
does a new place. -/
structure Sizer.Keeps (sizer : Sizer) (P : Memo → Prop) : Prop where
  ask : ∀ r m, P m → P (sizer r m).2
  putAt : ∀ m p, P m → P (m.putAt p)

/-- The property is not lost where the layout halts. -/
def Memo.StaysHalting (P : Memo → Prop) : Prop := ∀ m, P m → P m.halt

/-- Only records that the layout has halted at have the property. -/
def Memo.Halting (P : Memo → Prop) : Prop := ∀ m, P m → m.isHalted = true

/-- However it is asked, the sizer goes on with the records it is given. -/
def Sizer.Advances (sizer : Sizer) (shape : Memo) : Prop :=
  ∀ r m, m.HasShape shape → (sizer r m).2.Continues m

/-- The careful sizer answers like the other one, unless it halts. -/
structure Sizer.Heeds (careful sizer : Sizer) (shape : Memo) : Prop where
  advances : careful.Advances shape
  eq_of_runs : ∀ r m, m.HasShape shape → (careful r m).2.isHalted = false →
    careful r m = sizer r m

namespace Sizer

variable {careful sizer : Sizer} {shape : Memo}

theorem Advances.keeps (h : sizer.Advances shape) {m : Memo} (hm : m.HasShape shape) :
    sizer.Keeps (·.Continues m) where
  ask r x hx := (h r x (hx.hasShape_of hm)).trans hx
  putAt x p hx := (x.putAt_continues p).trans hx

theorem Advances.heeds (h : sizer.Advances shape) : sizer.Heeds sizer shape :=
  ⟨h, fun _ _ _ _ => rfl⟩

theorem Advances.remembering (h : sizer.Advances shape) :
    (Sizer.remembering sizer).Advances shape := by
  intro r m hm
  rw [Sizer.remembering]
  split
  · exact m.continues_refl
  · have hc := h r m hm
    refine ⟨(Memo.hasShape_mk_children _ _).mpr hc.hasShape, fun hhalted => ?_⟩
    have hhalted := hc.isHalted hhalted
    rw [Memo.isHalted_eq] at hhalted
    rwa [Memo.isHalted_mk, Cache.halted_store]

theorem Heeds.remembering (h : careful.Heeds sizer shape) :
    (Sizer.remembering careful).Heeds (Sizer.remembering sizer) shape where
  advances := h.advances.remembering
  eq_of_runs r m hm hruns := by
    rw [Sizer.remembering] at hruns ⊢
    rw [Sizer.remembering]
    cases hfound : m.cache.find? r with
    | some size => rfl
    | none =>
      simp only [hfound] at hruns ⊢
      rw [Memo.isHalted_mk, Cache.halted_store, ← Memo.isHalted_eq] at hruns
      rw [h.eq_of_runs r m hm hruns]

end Sizer

theorem Memo.staysHalting_continues (m : Memo) : StaysHalting (·.Continues m) :=
  fun x hx => x.halt_continues.trans hx

theorem Memo.halting_continues {m : Memo} (h : m.isHalted = true) : Halting (·.Continues m) :=
  fun _ hx => hx.isHalted h

end ContentCard.Layout
