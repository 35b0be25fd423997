import Mathlib.Data.List.Forall2

/-!
# Positions in a tree

A position in a tree is the list of the numbers of the children on the way to it from the root.  A
tree of any kind is followed along a position by the same rule (`descend`), so trees of different
kinds are compared position by position.
-/

namespace ContentCard

section

variable {α β γ : Type} {R : α → β → Prop} {x : Option α} {y : Option β}

theorem isSome_eq_of_rel (h : Option.Rel R x y) : x.isSome = y.isSome := by
  cases h <;> rfl

theorem map_eq_of_rel {f : α → γ} {g : β → γ} (h : Option.Rel R x y)
    (hfg : ∀ a b, R a b → f a = g b) : x.map f = y.map g := by
  cases h with
  | none => rfl
  | some h => exact congrArg some (hfg _ _ h)

theorem exists_of_rel_some {a : α} (h : Option.Rel R (some a) y) : ∃ b, y = some b ∧ R a b := by
  cases h with
  | some h => exact ⟨_, rfl, h⟩

theorem rel_bind {δ : Type} {S : γ → δ → Prop} {f : α → Option γ} {g : β → Option δ}
    (h : Option.Rel R x y) (hfg : ∀ a b, R a b → Option.Rel S (f a) (g b)) :
    Option.Rel S (x.bind f) (y.bind g) := by
  cases h with
  | none => exact .none
  | some h => exact hfg _ _ h

end

/-- The part of a tree at a position, if the tree reaches so far. -/
def descend {α : Type} (children : α → List α) (x : α) : List Nat → Option α
  | [] => some x
  | i :: path => (children x)[i]?.bind fun y => descend children y path

/-- All that is passed on the way to a position, with both ends, as far as the tree reaches. -/
def trail {α : Type} (children : α → List α) (x : α) : List Nat → List α
  | [] => [x]
  | i :: path => x :: ((children x)[i]?.map fun y => trail children y path).getD []

section

variable {α β : Type} {children : α → List α} {children' : β → List β}

/-- A change of labels that does not touch the children is the same at every position. -/
theorem descend_map {f : α → β} (h : ∀ x, children' (f x) = (children x).map f) (x : α)
    (path : List Nat) : descend children' (f x) path = (descend children x path).map f := by
  induction path generalizing x with
  | nil => rfl
  | cons i path ih =>
    rw [descend, descend, h, List.getElem?_map]
    cases (children x)[i]? with
    | none => rfl
    | some y => exact ih y

/-- What a node hands down to its children holds at every position below it. -/
theorem of_descend {P : α → Prop} (h : ∀ x, P x → ∀ y ∈ children x, P y) {x y : α} (hx : P x)
    {path : List Nat} (hy : descend children x path = some y) : P y := by
  induction path generalizing x with
  | nil =>
    cases hy
    exact hx
  | cons i path ih =>
    obtain ⟨z, hz, hy⟩ := Option.bind_eq_some_iff.mp hy
    exact ih (h x hx z (List.mem_of_getElem? hz)) hy

theorem trail_cons {x y : α} {i : Nat} (h : (children x)[i]? = some y) (path : List Nat) :
    trail children x (i :: path) = x :: trail children y path := by
  rw [trail, h, Option.map_some, Option.getD_some]

theorem length_trail {x y : α} {path : List Nat} (h : descend children x path = some y) :
    (trail children x path).length = path.length + 1 := by
  induction path generalizing x with
  | nil => rfl
  | cons i path ih =>
    obtain ⟨z, hz, hy⟩ := Option.bind_eq_some_iff.mp h
    rw [trail_cons hz, List.length_cons, ih hy, List.length_cons]

theorem rel_getElem? {R : α → β → Prop} {xs : List α} {ys : List β} (h : List.Forall₂ R xs ys)
    (i : Nat) : Option.Rel R xs[i]? ys[i]? := by
  induction h generalizing i with
  | nil => exact .none
  | cons hx _ ih =>
    cases i with
    | zero => exact .some hx
    | succ i => exact ih i

/-- Trees are related at every position if what relates two nodes relates their children one by
one, with none of them left over. -/
theorem descend_rel {R : α → β → Prop}
    (h : ∀ x y, R x y → List.Forall₂ R (children x) (children' y)) {x : α} {y : β} (hxy : R x y)
    (path : List Nat) : Option.Rel R (descend children x path) (descend children' y path) := by
  induction path generalizing x y with
  | nil => exact .some hxy
  | cons i path ih =>
    rw [descend, descend]
    exact rel_bind (rel_getElem? (h x y hxy) i) fun _ _ h => ih h

end

end ContentCard
