import ContentCard.Geometry
import ContentCard.Proofs.Number.Order
import ContentCard.Proofs.Number.Whole

/-!
# Intersections of rectangles

A rectangle is an interval across and one down.  An interval is stored by its start and its length,
so the end of an intersection is computed anew: it starts where the latest of its parts starts, and
it ends where the earliest of them ends unless that sum is rounded.
-/

namespace ContentCard

structure Interval where
  start : Float32
  length : Float32

namespace Interval

def stop (i : Interval) : Float32 := i.start + i.length

def IsFinite (i : Interval) : Prop := i.start.isFinite ∧ i.length.isFinite

/-- Nothing is between the ends. -/
def IsClosed (i : Interval) : Prop := i.stop ≤ i.start

/-- The start belongs to the interval, the end does not. -/
def Admits (i : Interval) (v : Float32) : Prop := ¬v < i.start ∧ ¬i.stop ≤ v

/-- The common part of two intervals. -/
def cut (i j : Interval) : Interval :=
  let start := Number.max i.start j.start
  ⟨start, Number.min i.stop j.stop - start⟩

/-- Whole numbers with sums and differences that are exact. -/
def IsWhole (i : Interval) : Prop :=
  ∃ start length : Int, start.natAbs < 2 ^ 21 ∧ length.natAbs < 2 ^ 21 ∧
    i = ⟨.ofInt start, .ofInt length⟩

/-- Each end is found again from each start. -/
def EndsKept (is : List Interval) : Prop :=
  ∀ i ∈ is, ∀ j ∈ is, j.start + (i.stop - j.start) = i.stop

theorem EndsKept.of_cons {i : Interval} {is : List Interval} (h : EndsKept (i :: is)) :
    EndsKept is := fun j hj k hk => h j (List.mem_cons_of_mem i hj) k (List.mem_cons_of_mem i hk)

theorem endsKept_of_isWhole {is : List Interval} (h : ∀ i ∈ is, i.IsWhole) : EndsKept is := by
  intro i hi j hj
  obtain ⟨a, w, ha, hw, rfl⟩ := h i hi
  obtain ⟨b, -, hb, -, rfl⟩ := h j hj
  have hback : b + (a + w - b) = a + w := by omega
  simp only [stop]
  rw [Number.ofInt_add (by omega) (by omega) (by omega),
    Number.ofInt_sub (by omega) (by omega) (by omega),
    Number.ofInt_add (by omega) (by omega) (by omega), hback]

theorem IsFinite.isNaN_start {i : Interval} (h : i.IsFinite) : i.start.isNaN = false :=
  Number.isNaN_of_isFinite h.1

theorem IsFinite.isNaN_stop {i : Interval} (h : i.IsFinite) : i.stop.isNaN = false :=
  Number.isNaN_add h.isNaN_start h.2

theorem IsClosed.not_admits {i : Interval} (h : i.IsClosed) {v : Float32}
    (hv : v.isNaN = false) : ¬i.Admits v := fun ⟨hstart, hstop⟩ =>
  hstop (Number.le_trans h (Number.le_of_not_lt hv (Number.isNaN_of_le h).2 hstart))

theorem isClosed_zero {v : Float32} (hv : v.isNaN = false) : IsClosed ⟨v, 0⟩ :=
  Number.add_zero_le hv

/-- What is cut out of a closed interval is closed. -/
theorem IsClosed.not_lt_cut {i j : Interval} (h : i.IsClosed) (hj : j.IsFinite) :
    ¬Number.max i.start j.start < Number.min i.stop j.stop := by
  obtain ⟨hstop, hstart⟩ := Number.isNaN_of_le h
  refine Number.not_lt_of_le ?_
  have hmin := (Number.min_le hstop hj.isNaN_stop).1
  have hmax := (Number.le_max hstart hj.isNaN_start).1
  exact Number.le_trans hmin (Number.le_trans h hmax)

/-- An interval that was cut out of others.  Its end is one of theirs if each end is kept. -/
structure IsMeet (i : Interval) (is : List Interval) : Prop where
  start_mem : ∃ j ∈ is, i.start = j.start
  start_le : ∀ j ∈ is, j.start ≤ i.start
  stop_mem : is.length ≤ 1 ∨ EndsKept is → ∃ j ∈ is, i.stop = j.stop
  le_stop : is.length ≤ 1 ∨ EndsKept is → ∀ j ∈ is, i.stop ≤ j.stop

theorem isMeet_singleton {i : Interval} (h : i.IsFinite) : IsMeet i [i] where
  start_mem := ⟨i, List.mem_singleton.mpr rfl, rfl⟩
  start_le := List.forall_mem_singleton.mpr (Number.le_self h.isNaN_start)
  stop_mem _ := ⟨i, List.mem_singleton.mpr rfl, rfl⟩
  le_stop _ := List.forall_mem_singleton.mpr (Number.le_self h.isNaN_stop)

namespace IsMeet

variable {i j : Interval} {is : List Interval}

theorem isNaN_start (h : IsMeet i is) (hfinite : ∀ k ∈ is, k.IsFinite) :
    i.start.isNaN = false := by
  obtain ⟨k, hk, hik⟩ := h.start_mem
  exact hik ▸ (hfinite k hk).isNaN_start

theorem isNaN_stop (h : IsMeet i is) (hfinite : ∀ k ∈ is, k.IsFinite)
    (hkept : is.length ≤ 1 ∨ EndsKept is) : i.stop.isNaN = false := by
  obtain ⟨k, hk, hik⟩ := h.stop_mem hkept
  exact hik ▸ (hfinite k hk).isNaN_stop

theorem start_cut_mem (h : IsMeet i is) (j : Interval) :
    ∃ k ∈ j :: is, (i.cut j).start = k.start := by
  obtain hmax | hmax := Number.max_eq_or i.start j.start
  · obtain ⟨k, hk, hik⟩ := h.start_mem
    exact ⟨k, List.mem_cons_of_mem j hk, hmax.trans hik⟩
  · exact ⟨j, List.mem_cons_self, hmax⟩

theorem min_stop_mem (h : IsMeet i is) (hkept : EndsKept is) (j : Interval) :
    ∃ k ∈ j :: is, Number.min i.stop j.stop = k.stop := by
  obtain hmin | hmin := Number.min_eq_or i.stop j.stop
  · obtain ⟨k, hk, hik⟩ := h.stop_mem (.inr hkept)
    exact ⟨k, List.mem_cons_of_mem j hk, hmin.trans hik⟩
  · exact ⟨j, List.mem_cons_self, hmin⟩

/-- The start and the end of the part that is cut out come from two of the intervals, and there the
rounded sum is the end again. -/
theorem stop_cut (h : IsMeet i is) (hkept : EndsKept (j :: is)) :
    (i.cut j).stop = Number.min i.stop j.stop := by
  obtain ⟨k, hk, hstop⟩ := h.min_stop_mem hkept.of_cons j
  obtain ⟨l, hl, hstart⟩ := h.start_cut_mem j
  show (i.cut j).start + (Number.min i.stop j.stop - (i.cut j).start) = Number.min i.stop j.stop
  rw [hstop, hstart]
  exact hkept k hk l hl

theorem cut (h : IsMeet i is) (hfinite : ∀ k ∈ j :: is, k.IsFinite) :
    IsMeet (i.cut j) (j :: is) := by
  obtain ⟨hj, hrest⟩ := List.forall_mem_cons.mp hfinite
  have hkept (hk : (j :: is).length ≤ 1 ∨ EndsKept (j :: is)) : EndsKept (j :: is) := by
    refine hk.resolve_left fun hlength => ?_
    obtain ⟨k, hk, -⟩ := h.start_mem
    have hpos := List.length_pos_of_mem hk
    rw [List.length_cons] at hlength
    omega
  have hmax := Number.le_max (h.isNaN_start hrest) hj.isNaN_start
  refine ⟨h.start_cut_mem j, ?_, fun hk => ?_, fun hk => ?_⟩
  · exact List.forall_mem_cons.mpr
      ⟨hmax.2, fun k hk => Number.le_trans (h.start_le k hk) hmax.1⟩
  · rw [h.stop_cut (hkept hk)]
    exact h.min_stop_mem (hkept hk).of_cons j
  · have hends := (hkept hk).of_cons
    have hmin := Number.min_le (h.isNaN_stop hrest (.inr hends)) hj.isNaN_stop
    rw [h.stop_cut (hkept hk)]
    exact List.forall_mem_cons.mpr
      ⟨hmin.2, fun k hk => Number.le_trans hmin.1 (h.le_stop (.inr hends) k hk)⟩

/-- What the interval admits lies behind every start and, where ends are kept, before every end. -/
theorem of_admits (h : IsMeet i is) (hfinite : ∀ k ∈ is, k.IsFinite) {v : Float32}
    (hv : v.isNaN = false) (hadmits : i.Admits v) :
    (∀ k ∈ is, k.start ≤ v) ∧ (is.length ≤ 1 ∨ EndsKept is → ∀ k ∈ is, v < k.stop) := by
  have hstart := Number.le_of_not_lt hv (h.isNaN_start hfinite) hadmits.1
  refine ⟨fun k hk => Number.le_trans (h.start_le k hk) hstart, fun hkept k hk => ?_⟩
  have hstop := Number.lt_of_not_le (h.isNaN_stop hfinite hkept) hv hadmits.2
  exact Number.lt_of_lt_of_le hstop (h.le_stop hkept k hk)

end IsMeet

end Interval

namespace Rect

def across (r : Rect) : Interval := ⟨r.x, r.width⟩

def down (r : Rect) : Interval := ⟨r.y, r.height⟩

def IsFinite (r : Rect) : Prop := r.across.IsFinite ∧ r.down.IsFinite

def IsWhole (r : Rect) : Prop := r.across.IsWhole ∧ r.down.IsWhole

/-- The right and the bottom edges are kept. -/
def EdgesKept (rs : List Rect) : Prop :=
  Interval.EndsKept (rs.map across) ∧ Interval.EndsKept (rs.map down)

theorem edgesKept_of_isWhole {rs : List Rect} (h : ∀ r ∈ rs, r.IsWhole) : EdgesKept rs :=
  ⟨Interval.endsKept_of_isWhole (List.forall_mem_map.mpr fun r hr => (h r hr).1),
    Interval.endsKept_of_isWhole (List.forall_mem_map.mpr fun r hr => (h r hr).2)⟩

theorem intersection?_eq_some {r s t : Rect} (h : r.intersection? s = some t) :
    Number.max r.across.start s.across.start < Number.min r.across.stop s.across.stop ∧
      Number.max r.down.start s.down.start < Number.min r.down.stop s.down.stop ∧
      t.across = r.across.cut s.across ∧ t.down = r.down.cut s.down := by
  simp only [intersection?] at h
  split at h
  next hlt =>
    obtain rfl := Option.some.inj h
    exact ⟨hlt.1, hlt.2, rfl, rfl⟩
  next => cases h

end Rect

end ContentCard
