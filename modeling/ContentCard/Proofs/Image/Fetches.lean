import ContentCard.ImageLoader.Run

/-!
# The fetches of a loader

Images are asked for one after the other, and the fetch of each, if there is one, comes to its end
before the next request.  The cache then holds the last fetches of all, as many as it has room for,
each of them of another address: an address is only fetched again when its last fetch is not among
them any more.  It is not enough to wait for the state of the handle, which a fetch gives first.
-/

namespace ContentCard

/-! ## 1. Records of fetches -/

/-- The addresses of fetches and their results, in the order of the fetches. -/
abbrev FetchLog := List (String × FetchResult)

namespace FetchLog

def urls (log : FetchLog) : List String := log.map Prod.fst

/-- The last fetches, as many as there is room for. -/
def window (capacity : Nat) (log : FetchLog) : FetchLog := log.drop (log.length - capacity)

/-- The result of the last fetch of an address. -/
def latest? (log : FetchLog) (url : String) : Option FetchResult := log.reverse.lookup url

theorem window_zero (log : FetchLog) : window 0 log = [] := by
  rw [window, Nat.sub_zero, List.drop_length]

theorem length_window (capacity : Nat) (log : FetchLog) :
    (window capacity log).length = min capacity log.length := by
  rw [window, List.length_drop]
  omega

/-- A new fetch pushes the oldest one out of a full window. -/
theorem window_append (capacity : Nat) (log : FetchLog) (fetch : String × FetchResult) :
    window capacity (log ++ [fetch]) =
      (window capacity log ++ [fetch]).drop ((window capacity log).length + 1 - capacity) := by
  rw [length_window]
  simp only [window, List.length_append, List.length_singleton, List.drop_append, List.drop_drop,
    List.length_drop]
  congr 2 <;> omega

theorem append_window (capacity : Nat) (log : FetchLog) :
    ∃ old, log = old ++ window capacity log :=
  ⟨_, (List.take_append_drop _ _).symm⟩

/-- Among entries of different addresses it does not matter from which end one looks. -/
theorem lookup_reverse {log : FetchLog} (h : (urls log).Nodup) (url : String) :
    log.reverse.lookup url = log.lookup url := by
  induction log with
  | nil => rfl
  | cons fetch log ih =>
    obtain ⟨key, result⟩ := fetch
    obtain ⟨hkey, hlog⟩ := List.nodup_cons.mp h
    rw [List.reverse_cons, List.lookup_append, ih hlog, List.lookup_cons, List.lookup_cons]
    by_cases hu : url = key
    · have hn : log.lookup url = none := by
        rw [List.lookup_eq_none_iff]
        intro p hp
        rw [bne_iff_ne, hu]
        rintro rfl
        exact hkey (List.mem_map.mpr ⟨p, hp, rfl⟩)
      rw [hn, hu, beq_self_eq_true]
      rfl
    · rw [beq_eq_false_iff_ne.mpr hu]
      exact Option.or_none

/-- What a window of different addresses holds for an address is its last fetch. -/
theorem latest?_of_mem_window {capacity : Nat} {log : FetchLog} {url : String}
    (hn : (urls (window capacity log)).Nodup) (h : url ∈ urls (window capacity log)) :
    ∃ result, latest? log url = some result ∧ (window capacity log).lookup url = some result := by
  obtain ⟨old, hlog⟩ := append_window capacity log
  cases hw : (window capacity log).lookup url with
  | none =>
    obtain ⟨fetch, hf, rfl⟩ := List.mem_map.mp h
    have hne := List.lookup_eq_none_iff.mp hw fetch hf
    simp at hne
  | some result =>
    refine ⟨result, ?_, rfl⟩
    rw [latest?, hlog, List.reverse_append, List.lookup_append, lookup_reverse hn, hw,
      Option.some_or]

end FetchLog

namespace ImageCache

theorem find?_eq_none_iff {c : ImageCache} {url : String} : c.find? url = none ↔ url ∉ c.urls := by
  rw [find?, List.lookup_eq_none_iff, urls, List.mem_map, not_exists]
  simp only [bne_iff_ne, not_and, ne_comm, ne_eq]

/-- A new address goes to the end, and what is too much leaves at the front. -/
theorem entries_insert {c : ImageCache} {url : String} (h : url ∉ c.urls) (hc : c.capacity ≠ 0)
    (result : FetchResult) :
    (c.insert url result).entries =
      (c.entries ++ [(url, result)]).drop (c.entries.length + 1 - c.capacity) := by
  rw [insert, if_neg hc, if_neg (by rw [find?_eq_none_iff.mpr h]; decide), append]
  simp only [List.length_append, List.length_singleton]

end ImageCache

/-! ## 2. Single fetches -/

namespace Fetch

/-- The address and the result, once it is known. -/
def entry (f : Fetch) : String × FetchResult := (f.url, f.result)

/-- The result has been given to the cache. -/
def IsStored (f : Fetch) : Prop := f.next = .forget ∨ f.next = .notify ∨ f.next = .done

/-- Only a notice may still come of the fetch. -/
def IsForgotten (f : Fetch) : Prop := f.next = .notify ∨ f.next = .done

instance (f : Fetch) : Decidable f.IsStored := inferInstanceAs (Decidable (_ ∨ _))

instance (f : Fetch) : Decidable f.IsForgotten := inferInstanceAs (Decidable (_ ∨ _))

variable {f : Fetch}

theorem IsForgotten.stepped (h : f.IsForgotten) (result : FetchResult) :
    (f.stepped result).IsForgotten ∧ (f.stepped result).entry = f.entry := by
  rcases h with h | h <;> simp [Fetch.stepped, h, IsForgotten, entry]

theorem IsForgotten.foldl (h : f.IsForgotten) (results : List FetchResult) :
    (results.foldl Fetch.stepped f).IsForgotten ∧
      (results.foldl Fetch.stepped f).entry = f.entry := by
  induction results generalizing f with
  | nil => exact ⟨h, rfl⟩
  | cons result rest ih =>
    obtain ⟨hforgotten, hentry⟩ := h.stepped result
    rw [← hentry]
    exact ih hforgotten

theorem IsForgotten.isStored (h : f.IsForgotten) : f.IsStored := .inr h

theorem slot_foldl (f : Fetch) (results : List FetchResult) :
    (results.foldl stepped f).slot = f.slot := by
  induction results generalizing f with
  | nil => rfl
  | cons result rest ih =>
    have hslot : (f.stepped result).slot = f.slot := by
      rw [stepped]
      split <;> rfl
    exact (ih _).trans hslot

/-- Three steps bring a fetch from its begin to where it is forgotten, and its result comes with the
first one. -/
theorem isForgotten_foldl_iff (url : String) (slot : Nat) (results : List FetchResult) :
    (results.foldl Fetch.stepped { url, slot }).IsForgotten ↔ 3 ≤ results.length := by
  match results with
  | [] | [_] | [_, _] => simp [IsForgotten, stepped]
  | first :: _ :: _ :: rest =>
    have hthird : IsForgotten { url, slot, next := .notify, result := first } := .inl rfl
    exact iff_of_true (hthird.foldl rest).1 (by simp)

theorem entry_foldl (url : String) (slot : Nat) {results : List FetchResult}
    (h : 3 ≤ results.length) :
    ∃ first, results.head? = some first ∧
      (results.foldl Fetch.stepped { url, slot }).entry = (url, first) := by
  match results, h with
  | first :: _ :: _ :: rest, _ =>
    have hthird : IsForgotten { url, slot, next := .notify, result := first } := .inl rfl
    exact ⟨first, rfl, (hthird.foldl rest).2⟩

end Fetch

theorem entry_set {fetches : List Fetch} {n : Nat} {f : Fetch} (hf : fetches[n]? = some f)
    (hforgotten : ∀ g ∈ fetches, g.IsForgotten) (result : FetchResult) :
    (fetches.set n (f.stepped result)).map Fetch.entry = fetches.map Fetch.entry ∧
      ∀ g ∈ fetches.set n (f.stepped result), g.IsForgotten := by
  obtain ⟨hlt, hget⟩ := List.getElem?_eq_some_iff.mp hf
  obtain ⟨hstepped, hentry⟩ := (hforgotten f (List.mem_of_getElem? hf)).stepped result
  constructor
  · rw [List.map_set, hentry, ← hget, ← List.getElem_map Fetch.entry, List.set_getElem_self]
    simpa using hlt
  · intro g hg
    rcases List.mem_or_eq_of_mem_set hg with hg | rfl
    · exact hforgotten g hg
    · exact hstepped

/-! ## 3. Runs -/

namespace LoaderRun

def log (s : LoaderRun) : FetchLog := s.fetches.map Fetch.entry

/-- What comes of the steps of one fetch. -/
def stepsOf (n : Nat) (steps : Schedule) : List FetchResult :=
  (steps.filter (·.1 == n)).map Prod.snd

theorem effect_of_isForgotten (s : LoaderRun) {f : Fetch} (h : f.IsForgotten)
    (result : FetchResult) : ∃ notices, s.effect f result = { s with notices } := by
  rcases h with h | h <;> exact ⟨_, by rw [effect, h]⟩

/-- The step of a fetch that is forgotten. -/
theorem advance_of_isForgotten {s : LoaderRun} {n : Nat} {f : Fetch}
    (hf : s.fetches[n]? = some f) (h : f.IsForgotten) (result : FetchResult) :
    ∃ notices, s.advance n result =
      { s with notices, fetches := s.fetches.set n (f.stepped result) } := by
  obtain ⟨notices, heffect⟩ := s.effect_of_isForgotten h result
  have hnext : ¬(f.next = .answer ∧ ¬s.isHeld f.slot) := by
    rcases h with h | h <;> simp [h]
  exact ⟨notices, by rw [advance, hf]; dsimp only; rw [if_neg hnext, heffect]⟩

theorem advance_of_none {s : LoaderRun} {n : Nat} (h : s.fetches[n]? = none)
    (result : FetchResult) : s.advance n result = s := by
  rw [advance, h]

/-- The loader is the same as before, but for notices. -/
structure OnlyNotices (s t : LoaderRun) : Prop where
  cache_eq : t.cache = s.cache
  inFlight_eq : t.inFlight = s.inFlight
  slots_eq : t.slots = s.slots
  log_eq : t.log = s.log
  forgotten : ∀ f ∈ t.fetches, f.IsForgotten

theorem OnlyNotices.trans {s t u : LoaderRun} (h : s.OnlyNotices t) (g : t.OnlyNotices u) :
    s.OnlyNotices u where
  cache_eq := g.cache_eq.trans h.cache_eq
  inFlight_eq := g.inFlight_eq.trans h.inFlight_eq
  slots_eq := g.slots_eq.trans h.slots_eq
  log_eq := g.log_eq.trans h.log_eq
  forgotten := g.forgotten

theorem onlyNotices_advance {s : LoaderRun} (h : ∀ f ∈ s.fetches, f.IsForgotten) (n : Nat)
    (result : FetchResult) : s.OnlyNotices (s.advance n result) := by
  cases hf : s.fetches[n]? with
  | none =>
    rw [advance_of_none hf]
    exact ⟨rfl, rfl, rfl, rfl, h⟩
  | some f =>
    obtain ⟨notices, hadvance⟩ := advance_of_isForgotten hf (h f (List.mem_of_getElem? hf)) result
    obtain ⟨hentries, hforgotten⟩ := entry_set hf h result
    rw [hadvance]
    exact ⟨rfl, rfl, rfl, hentries, hforgotten⟩

theorem onlyNotices_advanceAll {s : LoaderRun} (h : ∀ f ∈ s.fetches, f.IsForgotten)
    (steps : Schedule) : s.OnlyNotices (s.advanceAll steps) := by
  induction steps generalizing s with
  | nil => exact ⟨rfl, rfl, rfl, rfl, h⟩
  | cons step rest ih =>
    have hfirst := onlyNotices_advance h step.1 step.2
    exact hfirst.trans (ih hfirst.forgotten)

/-! ### The last fetch -/

/-- All fetches of a record are forgotten, and there is one more, which began with the given
cache. -/
structure Underway (log : FetchLog) (cache : ImageCache) (f : Fetch) (s : LoaderRun) : Prop where
  fetches_eq : ∃ before, s.fetches = before ++ [f] ∧ before.map Fetch.entry = log ∧
    ∀ g ∈ before, g.IsForgotten
  cache_eq : s.cache = if f.IsStored then cache.insert f.url f.result else cache
  inFlight_eq : s.inFlight = if f.IsForgotten then [] else [(f.url, f.slot)]
  isHeld : s.isHeld f.slot
  state_eq : s.state f.slot = if f.next = .answer then .pending else .ofResult f.result

variable {log : FetchLog} {cache : ImageCache} {f : Fetch} {s : LoaderRun}

theorem Underway.log_eq (h : Underway log cache f s) : s.log = log ++ [f.entry] := by
  obtain ⟨before, hfetches, hlog, -⟩ := h.fetches_eq
  rw [LoaderRun.log, hfetches, List.map_append, hlog]
  rfl

theorem Underway.advance (h : Underway log cache f s) (n : Nat) (result : FetchResult) :
    Underway log cache (if n = log.length then f.stepped result else f) (s.advance n result) := by
  obtain ⟨before, hfetches, hlog, hforgotten⟩ := h.fetches_eq
  have hlength : before.length = log.length := by rw [← hlog, List.length_map]
  rw [← hlength]
  rcases Nat.lt_trichotomy n before.length with hn | rfl | hn
  · -- an older fetch gives its notice
    have hget : s.fetches[n]? = some before[n] := by
      rw [hfetches, List.getElem?_append_left hn, List.getElem?_eq_getElem hn]
    have hmem := hforgotten _ (List.getElem_mem hn)
    obtain ⟨notices, hadvance⟩ := advance_of_isForgotten hget hmem result
    obtain ⟨hentries, hforgotten'⟩ :=
      entry_set (List.getElem?_eq_getElem hn) hforgotten result
    rw [hadvance, if_neg (Nat.ne_of_lt hn)]
    refine ⟨⟨before.set n (before[n].stepped result), ?_, hentries.trans hlog, hforgotten'⟩,
      h.cache_eq, h.inFlight_eq, h.isHeld, h.state_eq⟩
    rw [hfetches, List.set_append_left _ _ hn]
  · -- the fetch itself, which is held
    have hget : s.fetches[before.length]? = some f := by
      rw [hfetches, List.getElem?_concat_length]
    have hheld : ¬(f.next = .answer ∧ ¬s.isHeld f.slot) := fun hnot => hnot.2 h.isHeld
    have hset : s.fetches.set before.length (f.stepped result) = before ++ [f.stepped result] := by
      rw [hfetches, List.set_append_right _ _ (Nat.le_refl _), Nat.sub_self]
      rfl
    rw [LoaderRun.advance, hget]
    dsimp only
    rw [if_neg hheld, if_pos rfl, hset]
    have hcache := h.cache_eq
    have hinFlight := h.inFlight_eq
    have hstate := h.state_eq
    obtain ⟨slot, hslot, hslotHeld⟩ := (Option.any_eq_true ..).mp h.isHeld
    rw [LoaderRun.state, hslot] at hstate
    unfold Fetch.IsStored at hcache
    unfold Fetch.IsForgotten at hinFlight
    constructor
    · exact ⟨before, rfl, hlog, hforgotten⟩
    · cases hnext : f.next <;>
        simp [hnext, effect, Fetch.stepped, Fetch.IsStored, LoaderRun.forget, hcache]
    · cases hnext : f.next <;>
        simp [hnext, effect, Fetch.stepped, Fetch.IsForgotten, LoaderRun.forget, hinFlight]
    · cases hnext : f.next <;>
        simp [hnext, effect, Fetch.stepped, LoaderRun.isHeld, LoaderRun.forget, hslot, hslotHeld]
    · cases hnext : f.next <;>
        simp_all [effect, Fetch.stepped, LoaderRun.state, LoaderRun.forget]
  · -- there is no such fetch
    have hget : s.fetches[n]? = none := by
      rw [hfetches, List.getElem?_eq_none_iff, List.length_append, List.length_singleton]
      exact hn
    rw [advance_of_none hget, if_neg (Nat.ne_of_gt hn)]
    exact h

theorem Underway.advanceAll (h : Underway log cache f s) (steps : Schedule) :
    Underway log cache ((stepsOf log.length steps).foldl Fetch.stepped f)
      (s.advanceAll steps) := by
  induction steps generalizing s f with
  | nil => exact h
  | cons step rest ih =>
    have hfirst := ih (h.advance step.1 step.2)
    -- only a step of the fetch itself counts
    rw [stepsOf, List.filter_cons]
    by_cases hn : step.1 = log.length
    · rw [if_pos hn] at hfirst
      rw [if_pos (beq_iff_eq.mpr hn)]
      exact hfirst
    · rw [if_neg hn] at hfirst
      rw [if_neg (mt beq_iff_eq.mp hn)]
      exact hfirst

/-! ### Requests between which no fetch is under way -/

/-- No fetch is under way, and the last ones of all are in the cache. -/
structure AtRest (s : LoaderRun) (capacity : Nat) : Prop where
  capacity_eq : s.cache.capacity = capacity
  inFlight_eq : s.inFlight = []
  forgotten : ∀ f ∈ s.fetches, f.IsForgotten
  entries_eq : s.cache.entries = s.log.window capacity
  nodup : s.cache.urls.Nodup

theorem atRest_start (capacity : Nat) : (start capacity).AtRest capacity where
  capacity_eq := rfl
  inFlight_eq := rfl
  forgotten := List.forall_mem_nil _
  entries_eq := List.drop_nil.symm
  nodup := .nil

namespace AtRest

variable {capacity : Nat}

theorem urls_eq (h : s.AtRest capacity) : s.cache.urls = (s.log.window capacity).urls := by
  rw [ImageCache.urls, h.entries_eq, FetchLog.urls]

theorem of_onlyNotices (h : s.AtRest capacity) {t : LoaderRun} (ht : s.OnlyNotices t) :
    t.AtRest capacity where
  capacity_eq := by rw [ht.cache_eq, h.capacity_eq]
  inFlight_eq := by rw [ht.inFlight_eq, h.inFlight_eq]
  forgotten := ht.forgotten
  entries_eq := by rw [ht.cache_eq, ht.log_eq, h.entries_eq]
  nodup := ht.cache_eq ▸ h.nodup

/-- The cache after a fetch of a new address holds the last fetches again. -/
theorem entries_insert (h : s.AtRest capacity) {url : String} (hu : url ∉ s.cache.urls)
    (result : FetchResult) :
    (s.cache.insert url result).entries = FetchLog.window capacity (s.log ++ [(url, result)]) := by
  -- a cache without room takes nothing in, and its window stays empty
  by_cases hc : capacity = 0
  · subst hc
    rw [FetchLog.window_zero, ImageCache.insert, if_pos h.capacity_eq, h.entries_eq,
      FetchLog.window_zero]
  · rw [ImageCache.entries_insert hu (h.capacity_eq ▸ hc), h.entries_eq, h.capacity_eq,
      FetchLog.window_append]

theorem nodup_insert (h : s.AtRest capacity) {url : String} (hu : url ∉ s.cache.urls)
    (result : FetchResult) : (s.cache.insert url result).urls.Nodup := by
  rw [ImageCache.urls, h.entries_insert hu, FetchLog.window_append, ← h.entries_eq, List.map_drop,
    List.map_append]
  apply List.Nodup.sublist (List.drop_sublist _ _)
  -- only the new address could stand twice
  rw [List.nodup_append]
  refine ⟨h.nodup, List.pairwise_singleton _ _, ?_⟩
  rintro a ha b hb rfl
  rw [List.map_singleton, List.mem_singleton] at hb
  subst hb
  exact hu ha

/-- Known addresses get a handle that has its state. -/
theorem request_of_mem (h : s.AtRest capacity) {t : Turn} (hu : t.url ∈ s.cache.urls) :
    ∃ known, s.log.latest? t.url = some known ∧ s.cache.find? t.url = some known ∧
      s.request t = s.hand (.ofResult known) := by
  obtain ⟨known, hlatest, hlookup⟩ :=
    FetchLog.latest?_of_mem_window (h.urls_eq ▸ h.nodup) (h.urls_eq ▸ hu)
  have hfind : s.cache.find? t.url = some known := by
    rw [ImageCache.find?, h.entries_eq, hlookup]
  exact ⟨known, hlatest, hfind, by rw [request, hfind]⟩

theorem underway_begin (h : s.AtRest capacity) (url : String) :
    Underway s.log s.cache { url, slot := s.slots.length } (s.begin url).2 := by
  refine ⟨⟨s.fetches, rfl, rfl, h.forgotten⟩, ?_, ?_, ?_, ?_⟩
  · simp [begin, Fetch.IsStored]
  · simp [begin, Fetch.IsForgotten, h.inFlight_eq]
  · simp [begin, isHeld]
  · simp [begin, state]

/-- A fetch begins for a new address. -/
theorem request_of_not_mem (h : s.AtRest capacity) {t : Turn} (hu : t.url ∉ s.cache.urls) :
    ∃ slot after, s.request t = (slot, after) ∧
      Underway s.log s.cache { url := t.url, slot } after := by
  have hnotices := onlyNotices_advanceAll h.forgotten t.between
  have hrest := h.of_onlyNotices hnotices
  have hbegin := hrest.underway_begin t.url
  rw [hnotices.log_eq, hnotices.cache_eq] at hbegin
  refine ⟨_, _, ?_, hbegin⟩
  rw [request, ImageCache.find?_eq_none_iff.mpr hu]
  dsimp only
  rw [join, hrest.inFlight_eq]
  rfl

end AtRest

theorem perform_eq (s : LoaderRun) (t : Turn) :
    ∃ slots, s.perform t = { s.waited t with slots } := by
  rw [perform]
  generalize s.waited t = u
  induction t.dropped generalizing u with
  | nil => exact ⟨_, rfl⟩
  | cons slot rest ih => exact ih (u.drop slot)

/-- When the waiting ends, only notices may still come of the fetches. -/
def IsAwaited (s : LoaderRun) (t : Turn) : Prop := ∀ f ∈ (s.waited t).fetches, f.IsForgotten

/-- The fetch of every turn comes to its end. -/
def AwaitsEach (s : LoaderRun) : List Turn → Prop
  | [] => True
  | t :: rest => s.IsAwaited t ∧ (s.perform t).AwaitsEach rest

namespace AtRest

variable {capacity : Nat} {t : Turn}

theorem waited_of_mem (h : s.AtRest capacity) (hu : t.url ∈ s.cache.urls) :
    s.IsAwaited t ∧ (s.waited t).AtRest capacity ∧ (s.waited t).log = s.log ∧
      (s.waited t).cache = s.cache ∧
      ∃ known, s.log.latest? t.url = some known ∧ s.cache.find? t.url = some known ∧
        s.answer t = .ofResult known := by
  obtain ⟨known, hlatest, hfind, hrequest⟩ := h.request_of_mem hu
  have hhand : (s.hand (.ofResult known)).2.AtRest capacity :=
    ⟨h.capacity_eq, h.inFlight_eq, h.forgotten, h.entries_eq, h.nodup⟩
  have hnotices : (s.hand (.ofResult known)).2.OnlyNotices (s.waited t) := by
    rw [waited, hrequest]
    exact onlyNotices_advanceAll hhand.forgotten t.after
  have hanswer : s.answer t = .ofResult known := by
    rw [answer, state, hnotices.slots_eq, hrequest]
    simp [hand]
  have hrest := hhand.of_onlyNotices hnotices
  exact ⟨hrest.forgotten, hrest, hnotices.log_eq, hnotices.cache_eq, known, hlatest, hfind,
    hanswer⟩

theorem underway_waited (h : s.AtRest capacity) (hu : t.url ∉ s.cache.urls) :
    ∃ f : Fetch, Underway s.log s.cache f (s.waited t) ∧ s.answer t = (s.waited t).state f.slot ∧
      (f.IsForgotten ↔ 3 ≤ (stepsOf s.log.length t.after).length) ∧
      (f.IsForgotten → ∃ result, (stepsOf s.log.length t.after).head? = some result ∧
        f.entry = (t.url, result)) := by
  obtain ⟨slot, after, hrequest, hunderway⟩ := h.request_of_not_mem hu
  have hwaited := hunderway.advanceAll t.after
  have hforgotten :=
    Fetch.isForgotten_foldl_iff t.url slot (stepsOf s.log.length t.after)
  refine ⟨_, ?_, ?_, hforgotten, fun hf => Fetch.entry_foldl _ _ (hforgotten.mp hf)⟩
  · rw [waited, hrequest]
    exact hwaited
  · rw [answer, hrequest, Fetch.slot_foldl]

theorem isAwaited_iff (h : s.AtRest capacity) :
    s.IsAwaited t ↔
      t.url ∈ s.cache.urls ∨ 3 ≤ (stepsOf s.log.length t.after).length := by
  by_cases hu : t.url ∈ s.cache.urls
  · exact iff_of_true (h.waited_of_mem hu).1 (.inl hu)
  obtain ⟨f, hwaited, -, hforgotten, -⟩ := h.underway_waited hu
  -- the older fetches are forgotten in any case
  obtain ⟨before, hfetches, -, hbefore⟩ := hwaited.fetches_eq
  rw [or_iff_right hu, ← hforgotten, IsAwaited, hfetches]
  constructor
  · exact fun hall => hall f (List.mem_append_right _ (List.mem_singleton_self f))
  · exact fun hf => List.forall_mem_append.mpr ⟨hbefore, List.forall_mem_singleton.mpr hf⟩

/-- A new address is fetched. -/
theorem waited_of_not_mem (h : s.AtRest capacity) (hu : t.url ∉ s.cache.urls)
    (ht : s.IsAwaited t) :
    (s.waited t).AtRest capacity ∧
      ∃ result, (stepsOf s.log.length t.after).head? = some result ∧
        s.answer t = .ofResult result ∧ (s.waited t).log = s.log ++ [(t.url, result)] ∧
        (s.waited t).cache = s.cache.insert t.url result := by
  obtain ⟨f, hwaited, hanswer, hforgotten, hentry⟩ := h.underway_waited hu
  have hf := hforgotten.mpr ((h.isAwaited_iff.mp ht).resolve_left hu)
  obtain ⟨result, hhead, hpair⟩ := hentry hf
  obtain ⟨hurl, hresult⟩ := Prod.mk.inj hpair
  -- it has been stored before it is forgotten, with the result that it answered with
  have hnext : f.next ≠ .answer := by rcases hf with hf | hf <;> rw [hf] <;> decide
  have hcache := hwaited.cache_eq
  rw [if_pos hf.isStored, hurl, hresult] at hcache
  have hlog := hwaited.log_eq
  rw [hpair] at hlog
  obtain ⟨before, hfetches, -, hbefore⟩ := hwaited.fetches_eq
  refine ⟨⟨?_, ?_, ?_, ?_, ?_⟩, result, hhead, ?_, hlog, hcache⟩
  · rw [hcache, ImageCache.capacity_insert, h.capacity_eq]
  · rw [hwaited.inFlight_eq, if_pos hf]
  · rw [hfetches]
    exact List.forall_mem_append.mpr ⟨hbefore, List.forall_mem_singleton.mpr hf⟩
  · rw [hcache, hlog, h.entries_insert hu]
  · rw [hcache]
    exact h.nodup_insert hu result
  · rw [hanswer, hwaited.state_eq, if_neg hnext, hresult]

theorem waited (h : s.AtRest capacity) (ht : s.IsAwaited t) : (s.waited t).AtRest capacity := by
  by_cases hu : t.url ∈ s.cache.urls
  · exact (h.waited_of_mem hu).2.1
  · exact (h.waited_of_not_mem hu ht).1

/-- The handle of an awaited request has a state, and no fetch is under way. -/
theorem isAwaited_iff_settled (h : s.AtRest capacity) :
    s.IsAwaited t ↔ (s.answer t).isSettled ∧ (s.waited t).inFlight = [] := by
  by_cases hu : t.url ∈ s.cache.urls
  · obtain ⟨hawaited, hrest, -, -, known, -, -, hanswer⟩ := h.waited_of_mem (t := t) hu
    rw [hanswer]
    exact iff_of_true hawaited ⟨ImageState.isSettled_ofResult known, hrest.inFlight_eq⟩
  constructor
  · intro ht
    obtain ⟨hrest, result, -, hanswer, -⟩ := h.waited_of_not_mem hu ht
    rw [hanswer]
    exact ⟨ImageState.isSettled_ofResult result, hrest.inFlight_eq⟩
  · rintro ⟨-, hnone⟩
    obtain ⟨f, hwaited, -, hforgotten, -⟩ := h.underway_waited hu
    rw [hwaited.inFlight_eq] at hnone
    split at hnone
    next hf => exact h.isAwaited_iff.mpr (.inr (hforgotten.mp hf))
    next => cases hnone

/-- One turn. -/
theorem perform (h : s.AtRest capacity) (ht : s.IsAwaited t) : (s.perform t).AtRest capacity := by
  have hwaited := h.waited ht
  obtain ⟨slots, hperform⟩ := s.perform_eq t
  rw [hperform]
  exact ⟨hwaited.capacity_eq, hwaited.inFlight_eq, hwaited.forgotten, hwaited.entries_eq,
    hwaited.nodup⟩

/-- All turns. -/
theorem performAll (h : s.AtRest capacity) {turns : List Turn} (hturns : s.AwaitsEach turns) :
    (s.performAll turns).AtRest capacity := by
  induction turns generalizing s with
  | nil => exact h
  | cons t rest ih => exact ih (h.perform hturns.1) hturns.2

end AtRest

/-- Without room every turn is a fetch. -/
theorem urls_log_performAll {turns : List Turn} (h : s.AtRest 0) (hturns : s.AwaitsEach turns) :
    (s.performAll turns).log.urls = s.log.urls ++ turns.map Turn.url := by
  induction turns generalizing s with
  | nil => exact (List.append_nil _).symm
  | cons t rest ih =>
    have hu : t.url ∉ s.cache.urls := by
      rw [h.urls_eq, FetchLog.window_zero]
      exact List.not_mem_nil
    obtain ⟨-, result, -, -, hlog, -⟩ := h.waited_of_not_mem hu hturns.1
    obtain ⟨slots, hperform⟩ := s.perform_eq t
    have hlog' : (s.perform t).log = s.log ++ [(t.url, result)] := by
      rw [hperform]
      exact hlog
    refine (ih (h.perform hturns.1) hturns.2).trans ?_
    rw [hlog', FetchLog.urls, List.map_append, List.append_assoc]
    rfl

/-- A request that is awaited to its end is one step of the loader. -/
theorem AtRest.await_loader {capacity : Nat} {t : Turn} (h : s.AtRest capacity)
    (ht : s.IsAwaited t) :
    ∃ result, (s.loader.await t.url result).1 = s.answer t ∧
      (s.loader.await t.url result).2.cache = (s.perform t).cache ∧
      (s.loader.await t.url result).2.inFlight = (s.perform t).loader.inFlight := by
  have hafter : (s.perform t).loader.inFlight = [] := by
    rw [loader, (h.perform ht).inFlight_eq]
    rfl
  obtain ⟨slots, hperform⟩ := s.perform_eq t
  rw [hafter, hperform]
  by_cases hu : t.url ∈ s.cache.urls
  · obtain ⟨-, -, -, hcache, known, -, hfind, hanswer⟩ := h.waited_of_mem (t := t) hu
    have hawait : s.loader.await t.url known = (.ofResult known, s.loader) := by
      rw [ImageLoader.await, loader, hfind]
    refine ⟨known, ?_⟩
    rw [hawait, hanswer]
    exact ⟨rfl, hcache.symm, congrArg (List.map Prod.fst) h.inFlight_eq⟩
  · obtain ⟨-, result, -, hanswer, -, hcache⟩ := h.waited_of_not_mem hu ht
    have hfind := ImageCache.find?_eq_none_iff.mpr hu
    refine ⟨result, ?_⟩
    rw [ImageLoader.await, loader, hfind, hanswer]
    refine ⟨rfl, ?_, ?_⟩
    · rw [ImageLoader.settle, ImageLoader.request, hfind, h.inFlight_eq]
      exact hcache.symm
    · rw [ImageLoader.settle, ImageLoader.request, hfind, h.inFlight_eq]
      exact List.erase_cons_head ..

/-- Images are asked for one after the other, and the fetch of each comes to its end, whatever the
fetches do between the steps of a request.  Then the cache holds the last fetches of all, as many as
it has room for, each of another address.  The fetch of a request has come to its end after three
steps, if there is one, and just when the handle has a state and no fetch is under way.  A request
for an address in the cache is answered with the result of the address's last fetch and leaves the
cache as it is; any other one is one more fetch, whose result is the answer and comes last into the
cache.  Without room every request is a fetch. -/
theorem performAll_keeps_last_fetches (capacity : Nat) (turns : List Turn)
    (hturns : (start capacity).AwaitsEach turns) :
    let s := (start capacity).performAll turns
    s.inFlight = [] ∧ s.cache.entries = s.log.drop (s.log.length - capacity) ∧
      s.cache.urls.Nodup ∧ s.cache.size = min capacity s.log.length ∧
      (capacity = 0 → s.log.urls = turns.map Turn.url) ∧
      ∀ t,
        (s.IsAwaited t ↔
          t.url ∈ s.cache.urls ∨ 3 ≤ (stepsOf s.log.length t.after).length) ∧
        (s.IsAwaited t ↔ (s.answer t).isSettled ∧ (s.waited t).inFlight = []) ∧
        (s.IsAwaited t →
          if t.url ∈ s.cache.urls then
            ∃ known, s.log.latest? t.url = some known ∧ s.answer t = .ofResult known ∧
              (s.perform t).log = s.log ∧ (s.perform t).cache = s.cache
          else
            ∃ result, (stepsOf s.log.length t.after).head? = some result ∧
              s.answer t = .ofResult result ∧
              (s.perform t).log = s.log ++ [(t.url, result)] ∧
              (s.perform t).cache.entries =
                (s.log ++ [(t.url, result)]).drop (s.log.length + 1 - capacity)) := by
  intro s
  have h : s.AtRest capacity := (atRest_start capacity).performAll hturns
  refine ⟨h.inFlight_eq, h.entries_eq, h.nodup, ?_, ?_, fun t => ⟨h.isAwaited_iff,
    h.isAwaited_iff_settled, fun ht => ?_⟩⟩
  · rw [ImageCache.size, h.entries_eq, FetchLog.length_window]
  · rintro rfl
    exact urls_log_performAll (atRest_start 0) hturns
  · obtain ⟨slots, hperform⟩ := s.perform_eq t
    rw [hperform]
    split
    next hu =>
      obtain ⟨-, -, hlog, hcache, known, hlatest, -, hanswer⟩ := h.waited_of_mem (t := t) hu
      exact ⟨known, hlatest, hanswer, hlog, hcache⟩
    next hu =>
      obtain ⟨-, result, hhead, hanswer, hlog, hcache⟩ := h.waited_of_not_mem hu ht
      refine ⟨result, hhead, hanswer, hlog, ?_⟩
      show (s.waited t).cache.entries = _
      rw [hcache, h.entries_insert hu, FetchLog.window, List.length_append, List.length_singleton]

/-- Two addresses are fetched in turn into a cache with room for one result, and the second one is
asked for again. -/
theorem two_turns_keep_last_fetch :
    let turns : List Turn :=
      [{ url := "a", after := [(0, none), (0, none), (0, none)] },
        { url := "b", after := [(1, none), (1, none), (1, none)] }]
    let s := (start 1).performAll turns
    (start 1).AwaitsEach turns ∧ s.cache.urls = ["b"] ∧ s.IsAwaited { url := "b" } ∧
      (s.perform { url := "b" }).log = s.log := by
  intro turns s
  have hturns : (start 1).AwaitsEach turns := by
    refine ⟨?_, ?_, trivial⟩ <;> unfold IsAwaited <;> decide
  obtain ⟨-, hentries, -, -, -, hnext⟩ := performAll_keeps_last_fetches 1 turns hturns
  have hurls : s.cache.urls = ["b"] := by
    rw [ImageCache.urls, hentries]
    decide
  have hmem : "b" ∈ s.cache.urls := by
    rw [hurls]
    exact List.mem_singleton_self _
  obtain ⟨hend, -, hanswer⟩ := hnext { url := "b" }
  have hawaited := hend.mpr (.inl hmem)
  have hhit := hanswer hawaited
  rw [if_pos hmem] at hhit
  obtain ⟨known, -, -, hlog, -⟩ := hhit
  exact ⟨hturns, hurls, hawaited, hlog⟩

/-- The handle of every turn has a state in the end. -/
def SettlesEach (s : LoaderRun) : List Turn → Prop
  | [] => True
  | t :: rest => (s.answer t).isSettled ∧ (s.perform t).SettlesEach rest

/-- After one step the handle has its state, but the fetch is still under way, and nothing is in the
cache.  The next request for the same address gets the same handle and no fetch of its own. -/
theorem not_forall_settlesEach :
    (¬∀ capacity turns, (start capacity).SettlesEach turns →
      ((start capacity).performAll turns).inFlight = []) ∧
    (¬∀ capacity turns, (start capacity).SettlesEach turns →
      ((start capacity).performAll turns).cache.size =
        min capacity ((start capacity).performAll turns).log.length) ∧
    ¬∀ turns, (start 0).SettlesEach turns →
      ((start 0).performAll turns).log.urls = turns.map Turn.url := by
  let t : Turn := { url := "a", after := [(0, none)] }
  have hone (capacity : Nat) (hanswer : ((start capacity).answer t).isSettled) :
      (start capacity).SettlesEach [t] := ⟨hanswer, trivial⟩
  refine ⟨fun h => ?_, fun h => ?_, fun h => ?_⟩
  · exact absurd (h 1 [t] (hone 1 rfl)) (by decide)
  · exact absurd (h 1 [t] (hone 1 rfl)) (by decide)
  · exact absurd (h [t, t] ⟨rfl, rfl, trivial⟩) (by decide)

end LoaderRun

end ContentCard
