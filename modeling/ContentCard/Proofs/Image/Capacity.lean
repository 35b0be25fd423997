import ContentCard.ImageLoader.Operation
import ContentCard.Proofs.Image.Fetches
import Mathlib.Data.List.Induction

/-!
# The capacity of a cache

A fetch that is stored makes the cache fit its capacity.  A lower capacity alone does not: the
results that are too many stay, and are given as answers, until the next fetch is stored.
-/

namespace ContentCard

namespace ImageCache

theorem size_insert_le {c : ImageCache} {url : String} (hurl : url ∉ c.urls)
    (hcapacity : c.capacity ≠ 0) (result : FetchResult) :
    (c.insert url result).size ≤ c.capacity := by
  rw [size, entries_insert hurl hcapacity, List.length_drop, List.length_append,
    List.length_singleton]
  omega

end ImageCache

namespace ImageLoader

/-! ## 1. One request -/

theorem await_of_mem {l : ImageLoader} {url : String} (h : url ∈ l.cache.urls)
    (result : FetchResult) :
    ∃ known, l.cache.find? url = some known ∧ l.await url result = (.ofResult known, l) := by
  cases hf : l.cache.find? url with
  | none => exact absurd h (ImageCache.find?_eq_none_iff.mp hf)
  | some known => exact ⟨known, rfl, by rw [await, hf]⟩

theorem await_of_not_mem {l : ImageLoader} {url : String} (h : url ∉ l.cache.urls)
    (result : FetchResult) :
    (l.await url result).1 = .ofResult result ∧
      (l.await url result).2.cache = l.cache.insert url result := by
  have hrequest : (l.request url).cache = l.cache := by
    rw [request]
    split <;> rfl
  rw [await, ImageCache.find?_eq_none_iff.mpr h]
  exact ⟨rfl, congrArg (·.insert url result) hrequest⟩

/-- Either the cache stays as it is, or it fits. -/
theorem cache_await (l : ImageLoader) (url : String) (result : FetchResult) :
    (l.await url result).2.cache = l.cache ∨
      (l.await url result).2.cache.size ≤ (l.await url result).2.cache.capacity := by
  by_cases hurl : url ∈ l.cache.urls
  · obtain ⟨known, -, h⟩ := await_of_mem hurl result
    exact .inl (congrArg (·.2.cache) h)
  rw [(await_of_not_mem hurl result).2]
  by_cases hcapacity : l.cache.capacity = 0
  · exact .inl (if_pos hcapacity)
  · rw [ImageCache.capacity_insert]
    exact .inr (ImageCache.size_insert_le hurl hcapacity result)

theorem capacity_await (l : ImageLoader) (url : String) (result : FetchResult) :
    (l.await url result).2.cache.capacity = l.cache.capacity := by
  by_cases hurl : url ∈ l.cache.urls
  · obtain ⟨known, -, h⟩ := await_of_mem hurl result
    rw [h]
  · rw [(await_of_not_mem hurl result).2, ImageCache.capacity_insert]

/-! ## 2. Runs -/

def Operation.capacity? : Operation → Option Nat
  | .setCapacity capacity => some capacity
  | .await .. => none

/-- The capacity that was set last. -/
def lastCapacity (operations : List Operation) : Nat :=
  ((operations.filterMap Operation.capacity?).getLast?).getD 256

theorem lastCapacity_concat (operations : List Operation) (op : Operation) :
    lastCapacity (operations ++ [op]) = op.capacity?.getD (lastCapacity operations) := by
  cases op <;> simp [lastCapacity, Operation.capacity?]

theorem performAll_concat (l : ImageLoader) (operations : List Operation) (op : Operation) :
    l.performAll (operations ++ [op]) = (l.performAll operations).perform op :=
  List.foldl_append

theorem capacity_performAll (operations : List Operation) :
    (performAll {} operations).cache.capacity = lastCapacity operations := by
  induction operations using List.reverseRecOn with
  | nil => rfl
  | append_singleton operations op ih =>
    rw [performAll_concat, lastCapacity_concat, ← ih]
    cases op with
    | setCapacity capacity => rfl
    | await url result => exact capacity_await _ url result

/-- The capacity was set below the number of results, and nothing has been stored since. -/
def IsLowered (operations : List Operation) : Prop :=
  ∃ (before after : List Operation) (capacity : Nat),
    operations = before ++ .setCapacity capacity :: after ∧
      (∀ op ∈ after, op.capacity? = none) ∧
      capacity < (performAll {} before).cache.size ∧
      (performAll {} operations).cache.entries = (performAll {} before).cache.entries

/-- One operation more. -/
theorem fits_or_isLowered_concat {operations : List Operation} (op : Operation)
    (h : (performAll {} operations).cache.size ≤ lastCapacity operations ∨ IsLowered operations) :
    (performAll {} (operations ++ [op])).cache.size ≤ lastCapacity (operations ++ [op]) ∨
      IsLowered (operations ++ [op]) := by
  cases op with
  | setCapacity capacity =>
    have hentries : (performAll {} (operations ++ [.setCapacity capacity])).cache.entries =
        (performAll {} operations).cache.entries := by
      rw [performAll_concat]
      rfl
    rw [lastCapacity_concat, ImageCache.size, hentries]
    exact (Nat.lt_or_ge capacity _).symm.imp_right fun hlow =>
      ⟨operations, [], capacity, rfl, List.forall_mem_nil _, hlow, hentries⟩
  | await url result =>
    have hcapacity := capacity_performAll (operations ++ [.await url result])
    have hstep : (performAll {} (operations ++ [.await url result])) =
        ((performAll {} operations).await url result).2 := performAll_concat ..
    obtain hsame | hfits := cache_await (performAll {} operations) url result
    · rw [← hstep] at hsame
      rw [lastCapacity_concat, ImageCache.size, hsame]
      refine h.imp_right ?_
      -- the requests since the capacity was lowered are one more
      rintro ⟨before, after, capacity, rfl, hafter, hlow, hentries⟩
      refine ⟨before, after ++ [.await url result], capacity, by simp, ?_, hlow,
        (congrArg ImageCache.entries hsame).trans hentries⟩
      exact List.forall_mem_append.mpr ⟨hafter, List.forall_mem_singleton.mpr rfl⟩
    · rw [← hstep, hcapacity] at hfits
      exact .inl hfits

/-- The capacity is the one that was set last.  More results than that are in the cache only if the
capacity was set below their number and nothing has been stored since.  Known addresses are answered
from the cache, whatever its capacity, and change nothing.  A new one is answered with its fetch,
which is stored and makes the cache fit its capacity; without capacity the cache stays as it is. -/
theorem performAll_fits_unless_lowered (operations : List Operation) :
    let l := performAll {} operations
    l.cache.capacity = lastCapacity operations ∧
      (l.cache.size ≤ lastCapacity operations ∨ IsLowered operations) ∧
      ∀ url result,
        if url ∈ l.cache.urls then
          ∃ known, l.cache.find? url = some known ∧ l.await url result = (.ofResult known, l)
        else
          (l.await url result).1 = .ofResult result ∧
            if lastCapacity operations = 0 then (l.await url result).2.cache = l.cache
            else (l.await url result).2.cache.size ≤ lastCapacity operations := by
  intro l
  have hcapacity : l.cache.capacity = lastCapacity operations := capacity_performAll operations
  refine ⟨hcapacity, ?_, fun url result => ?_⟩
  · induction operations using List.reverseRecOn with
    | nil => exact .inl (Nat.zero_le _)
    | append_singleton operations op ih =>
      exact fits_or_isLowered_concat op (ih (capacity_performAll operations))
  · split
    next hurl => exact await_of_mem hurl result
    next hurl =>
      obtain ⟨hanswer, hcache⟩ := await_of_not_mem hurl result
      refine ⟨hanswer, ?_⟩
      rw [hcache, ← hcapacity]
      split
      next hzero => exact if_pos hzero
      next hpos => exact ImageCache.size_insert_le hurl hpos result

/-- Two results stay in the cache when there is room for one only, or for none; without room one of
them is still given as an answer. -/
theorem not_forall_size_le_lastCapacity :
    (¬ ∀ operations, (performAll {} operations).cache.size ≤ lastCapacity operations) ∧
      ¬ ∀ operations url result, lastCapacity operations = 0 →
        ((performAll {} operations).await url result).1 = .ofResult result := by
  refine ⟨fun h => ?_, fun h => ?_⟩
  · exact absurd (h [.await "a" none, .await "b" none, .setCapacity 1]) (by decide)
  · have hstale := h [.await "a" none, .setCapacity 0] "a" (some (.blank 1 1)) rfl
    cases hstale

end ImageLoader

end ContentCard
