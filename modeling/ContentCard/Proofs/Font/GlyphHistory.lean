import ContentCard.Font.GlyphCache
import ContentCard.Proofs.Text.NaturalWidth

/-!
# Glyphs that are drawn once

A cache that starts empty answers every request with the picture of the first request of its key.
The key has the character of a request but only the tenths of its size, so that the picture is one
of the character asked for, and maybe of another size.
-/

namespace ContentCard.GlyphCache

/-! ## 1. Requests in their order -/

/-- The pictures for requests, each a character and a size, that come one after the other. -/
def renderAll (f : Font) (cache : GlyphCache) : List (Char × Float32) → List GlyphImage
  | [] => []
  | r :: rest =>
    let (image, cache) := render f cache r.1 r.2
    image :: renderAll f cache rest

/-- The first request of a key. -/
def firstOf? (requests : List (Char × Float32)) (k : Char × Nat) : Option (Char × Float32) :=
  requests.find? fun r => key r.1 r.2 == k

/-- The size at which the glyph of a request is drawn: that of the first request of its key. -/
def drawnSize (requests : List (Char × Float32)) (r : Char × Float32) : Float32 :=
  ((firstOf? requests (key r.1 r.2)).getD r).2

theorem key_of_firstOf? {requests : List (Char × Float32)} {k : Char × Nat} {r : Char × Float32}
    (h : firstOf? requests k = some r) : key r.1 r.2 = k := by
  simpa using List.find?_some h

theorem firstOf?_append (requests more : List (Char × Float32)) (k : Char × Nat) :
    firstOf? (requests ++ more) k = (firstOf? requests k).or (firstOf? more k) :=
  List.find?_append

theorem firstOf?_singleton_self (r : Char × Float32) : firstOf? [r] (key r.1 r.2) = some r := by
  simp [firstOf?]

theorem firstOf?_singleton_of_ne {r : Char × Float32} {k : Char × Nat} (h : k ≠ key r.1 r.2) :
    firstOf? [r] k = none := by
  simp [firstOf?, h.symm]

/-- Requests behind one of the same key do not count. -/
theorem drawnSize_append {requests : List (Char × Float32)} {r : Char × Float32}
    (h : r ∈ requests) (more : List (Char × Float32)) :
    drawnSize (requests ++ more) r = drawnSize requests r := by
  cases hfirst : firstOf? requests (key r.1 r.2) with
  | none =>
    have hne := List.find?_eq_none.mp hfirst r h
    exact absurd (beq_self_eq_true _) hne
  | some q => rw [drawnSize, drawnSize, firstOf?_append, hfirst, Option.some_or]

theorem drawnSize_eq_of_forall {requests : List (Char × Float32)} {r : Char × Float32}
    (h : ∀ q ∈ requests, key q.1 q.2 = key r.1 r.2 → q.2 = r.2) : drawnSize requests r = r.2 := by
  cases hfirst : firstOf? requests (key r.1 r.2) with
  | none => rw [drawnSize, hfirst, Option.getD_none]
  | some q =>
    rw [drawnSize, hfirst, Option.getD_some]
    exact h q (List.mem_of_find?_eq_some hfirst) (key_of_firstOf? hfirst)

/-! ## 2. What the cache holds -/

variable {f : Font} {history : List (Char × Float32)} {cache : GlyphCache}

/-- The cache behind a history: for each key the picture of its first request. -/
def Holds (f : Font) (history : List (Char × Float32)) (cache : GlyphCache) : Prop :=
  ∀ k, cache.lookup k = (firstOf? history k).map fun r => f.render r.1 r.2

theorem holds_nil (f : Font) : Holds f [] [] := fun _ => rfl

/-- A request adds its picture if it is the first of its key, and nothing else. -/
theorem Holds.render (h : Holds f history cache) (r : Char × Float32) :
    Holds f (history ++ [r]) (GlyphCache.render f cache r.1 r.2).2 := by
  intro k
  have hr := h (key r.1 r.2)
  rw [firstOf?_append]
  by_cases hk : k = key r.1 r.2
  · subst hk
    rw [firstOf?_singleton_self]
    cases hfirst : firstOf? history (key r.1 r.2) with
    | none => simp [GlyphCache.render, hr, hfirst]
    | some q => simp [GlyphCache.render, hr, hfirst]
  · rw [firstOf?_singleton_of_ne hk, Option.or_none, ← h k, GlyphCache.render]
    split
    · rfl
    · rw [List.lookup_cons, beq_eq_false_iff_ne.mpr hk]

/-- The answer to a request, whatever the cache has seen. -/
theorem Holds.render_fst (h : Holds f history cache) (r : Char × Float32) :
    (GlyphCache.render f cache r.1 r.2).1 = f.render r.1 (drawnSize (history ++ [r]) r) := by
  have hr := h (key r.1 r.2)
  rw [drawnSize, firstOf?_append, firstOf?_singleton_self]
  cases hfirst : firstOf? history (key r.1 r.2) with
  | none => simp [GlyphCache.render, hr, hfirst]
  | some q =>
    have hchar : q.1 = r.1 := (Prod.mk.inj (key_of_firstOf? hfirst)).1
    simp [GlyphCache.render, hr, hfirst, hchar]

theorem Holds.renderAll (h : Holds f history cache) (requests : List (Char × Float32)) :
    renderAll f cache requests =
      requests.map fun r => f.render r.1 (drawnSize (history ++ requests) r) := by
  induction requests generalizing history cache with
  | nil => rfl
  | cons r rest ih =>
    have hmem : r ∈ history ++ [r] := List.mem_append_right _ (List.mem_singleton_self r)
    have hlist : history ++ r :: rest = history ++ [r] ++ rest := List.append_cons history r rest
    rw [List.map_cons, hlist, drawnSize_append hmem rest, ← h.render_fst r, ← ih (h.render r)]
    rfl

/-! ## 3. Histories -/

/-- Each request is answered with the glyph of its character, at the size of the first request of
the same character and the same tenths. -/
theorem renderAll_eq_map (f : Font) (requests : List (Char × Float32)) :
    renderAll f [] requests = requests.map fun r => f.render r.1 (drawnSize requests r) :=
  (holds_nil f).renderAll requests

/-- The answer is the picture at the size asked for unless a request of the same key had another
one. -/
theorem renderAll_eq_map_render {requests : List (Char × Float32)}
    (h : ∀ q ∈ requests, ∀ r ∈ requests, key q.1 q.2 = key r.1 r.2 → q.2 = r.2) (f : Font) :
    renderAll f [] requests = requests.map fun r => f.render r.1 r.2 := by
  refine ((holds_nil f).renderAll requests).trans (List.map_congr_left fun r hr => ?_)
  rw [List.nil_append, drawnSize_eq_of_forall fun q hq => h q hq r hr]

/-- At 10.04 pixels a glyph is drawn as at 10 where it has been drawn at 10 before. -/
theorem not_forall_renderAll_eq_map_render :
    ¬∀ (bytes : List UInt8) (f : Font) (requests : List (Char × Float32)),
      Font.read bytes = .ok f →
      renderAll f [] requests = requests.map fun r => f.render r.1 r.2 := by
  intro h
  have hadvances : ((Font.read Font.oneGlyph).toOption.map fun f =>
      decide ((renderAll f [] [('A', 10), ('A', 10.04)]).map GlyphImage.advance =
        ([('A', 10), ('A', 10.04)].map fun r => f.render r.1 r.2).map GlyphImage.advance)) =
          some false := by
    decide +kernel
  cases hread : Font.read Font.oneGlyph with
  | error fault =>
    rw [hread] at hadvances
    cases hadvances
  | ok f =>
    rw [hread, Except.toOption, Option.map_some, h Font.oneGlyph f _ hread] at hadvances
    simp at hadvances

end ContentCard.GlyphCache
