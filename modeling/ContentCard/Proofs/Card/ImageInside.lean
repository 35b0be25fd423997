import ContentCard.Card.Paint
import ContentCard.Proofs.Picture.Fitting

/-!
# Images stay in their boxes

Whatever has become of an image, its fill, its cross and its picture change pixels of its box only.
The three dots of an image that has not arrived are neither cut off nor made smaller: they stay in
boxes that have room for them.
-/

namespace ContentCard

open Number

/-! ## 1. Marks around the middle -/

namespace Interval

/-- The interval's pixels go as far as this to both sides of its middle. -/
structure HasRoom (i : Interval) (reach : ℤ) : Prop where
  start : ⌊value i.start⌋ + reach ≤ value i.start + value i.length / 2
  stop : value i.start + value i.length / 2 + reach ≤ ⌈value i.stop⌉

/-- A length of one pixel more is room enough wherever the interval lies. -/
theorem IsModerate.hasRoom {i : Interval} (hi : i.IsModerate) {reach : ℤ}
    (h : 2 * reach + 1 ≤ value i.length) : i.HasRoom reach := by
  obtain ⟨-, hstop⟩ := hi.stop_near
  have hfloor := Int.floor_le (value i.start)
  have hceil := Int.le_ceil (value i.stop)
  rw [abs_le] at hstop
  constructor <;> linarith

/-- Pixels of an interval between the ends of another one are those of that one. -/
theorem Touches.mono {i j : Interval} {n : ℕ} (h : j.Touches n) (hi : i.start.isFinite)
    (hi' : i.stop.isFinite) (hj : j.start.isFinite) (hj' : j.stop.isFinite)
    (hstart : ⌊value i.start⌋ ≤ value j.start) (hstop : value j.stop ≤ ⌈value i.stop⌉) :
    i.Touches n := by
  have hfloor : ⌊value i.start⌋ ≤ ⌊value j.start⌋ := Int.le_floor.mpr hstart
  have hceil : ⌈value j.stop⌉ ≤ ⌈value i.stop⌉ := Int.ceil_le.mpr hstop
  unfold Touches at *
  rw [toInt32_floor hj, toInt32_ceil hj'] at h
  rw [toInt32_floor hi, toInt32_ceil hi']
  omega

section

variable {i : Interval} (hi : i.IsModerate) {reach : ℤ} (h : i.HasRoom reach)

include hi h

/-- The pixels of the interval are numbered without an error. -/
theorem IsModerate.ends_near :
    -2 ^ 21 ≤ ⌊value i.start⌋ ∧ ⌊value i.start⌋ + 2 * reach ≤ ⌈value i.stop⌉ ∧
      ⌈value i.stop⌉ ≤ 2 ^ 22 := by
  obtain ⟨-, hstop⟩ := hi.stop_near
  have hstart := abs_le.mp hi.start_le
  have hlength := abs_le.mp hi.length_le
  rw [abs_le] at hstop
  refine ⟨?_, ?_, ?_⟩
  · apply Int.le_floor.mpr
    push_cast
    norm_num at hstart ⊢
    linarith
  · have hle : ((⌊value i.start⌋ + 2 * reach : ℤ) : ℚ) ≤ ⌈value i.stop⌉ := by
      have hstart' := h.start
      have hstop' := h.stop
      push_cast
      linarith
    exact_mod_cast hle
  · apply Int.ceil_le.mpr
    push_cast
    norm_num at hstart hlength ⊢
    linarith

/-- The middle, as it is computed. -/
theorem IsModerate.middle_between (hreach : 2 ≤ reach) :
    (i.start + i.length / 2).isFinite ∧
      (⌊value i.start⌋ + reach : ℤ) ≤ value (i.start + i.length / 2) ∧
      value (i.start + i.length / 2) ≤ (⌈value i.stop⌉ - reach : ℤ) := by
  obtain ⟨hlow, hroom, hhigh⟩ := hi.ends_near h
  have hlength : 1 ≤ value i.length := by
    have hfloor := Int.lt_floor_add_one (value i.start)
    have hstart := h.start
    have hreach' : (2 : ℚ) ≤ reach := by exact_mod_cast hreach
    linarith
  have hlarge : |value i.length| < 2 ^ 127 := hi.length_le.trans_lt (by norm_num)
  -- half of the length is exact, so that only the sum is rounded
  obtain ⟨hhalf, hvalue⟩ := Rounds.value_div_two hi.isFinite.2
    (hlength.trans (le_abs_self _)) hlarge
  refine (Rounds.add hi.isFinite.1 hhalf).between (by omega) (by omega) ?_ ?_
  · rw [hvalue]
    push_cast
    exact h.start
  · rw [hvalue]
    push_cast
    linarith [h.stop]

end

/-- Four pixels around a point, which is itself computed. -/
def around (middle : Float32) : Interval := ⟨middle - 2, 4⟩

theorem around_between {middle : Float32} (hm : middle.isFinite) {low high : ℤ}
    (hlow : -2 ^ 22 ≤ low) (hhigh : high ≤ 2 ^ 23) (hlow' : low ≤ value middle)
    (hhigh' : value middle ≤ high) :
    (around middle).start.isFinite ∧ (around middle).stop.isFinite ∧
      (low - 2 : ℤ) ≤ value (around middle).start ∧
      value (around middle).stop ≤ (high + 2 : ℤ) := by
  have htwo : value 2 = 2 := value_ofNat (n := 2) (by decide)
  have hfour : value 4 = 4 := value_ofNat (n := 4) (by decide)
  -- whole numbers around the exact results hold the rounded ones as well
  obtain ⟨hstart, hstart', hstart''⟩ := (Rounds.sub hm (y := 2) rfl).between (i := low - 2)
    (j := high - 2) (by omega) (by omega) (by rw [htwo]; push_cast; linarith)
    (by rw [htwo]; push_cast; linarith)
  obtain ⟨hstop, -, hstop'⟩ := (Rounds.add hstart (y := 4) rfl).between (i := low + 2)
    (j := high + 2) (by omega) (by omega) (by rw [hfour]; push_cast at *; linarith)
    (by rw [hfour]; push_cast at *; linarith)
  exact ⟨hstart, hstop, hstart', hstop'⟩

variable {i : Interval} (hi : i.IsModerate) {n : ℕ}

include hi

/-- The rows of a dot. -/
theorem IsModerate.touches_of_around (h : i.HasRoom 2)
    (ht : (around (i.start + i.length / 2)).Touches n) : i.Touches n := by
  obtain ⟨hlow, hroom, hhigh⟩ := hi.ends_near h
  obtain ⟨hmiddle, hlow', hhigh'⟩ := hi.middle_between h (by decide)
  obtain ⟨hstart, hstop, hstart', hstop'⟩ :=
    around_between hmiddle (by omega) (by omega) hlow' hhigh'
  -- a dot reaches two pixels to both sides, which is the room there is
  refine ht.mono hi.isFinite.1 hi.stop_near.1 hstart hstop ?_ ?_
  · push_cast at hstart'
    linarith
  · push_cast at hstop'
    linarith

/-- The columns of a dot aside from the middle. -/
theorem IsModerate.touches_of_around_add (h : i.HasRoom 10) {offset : Float32}
    (hoffset : offset.isFinite) {k : ℤ} (hk : value offset = k) (hk' : -8 ≤ k) (hk'' : k ≤ 8)
    (ht : (around (i.start + i.length / 2 + offset)).Touches n) : i.Touches n := by
  obtain ⟨hlow, hroom, hhigh⟩ := hi.ends_near h
  obtain ⟨hmiddle, hlow', hhigh'⟩ := hi.middle_between h (by decide)
  obtain ⟨hsum, hsum', hsum''⟩ := (Rounds.add hmiddle hoffset).between
    (i := ⌊value i.start⌋ + 10 + k) (j := ⌈value i.stop⌉ - 10 + k) (by omega) (by omega)
    (by rw [hk]; push_cast at *; linarith) (by rw [hk]; push_cast at *; linarith)
  obtain ⟨hstart, hstop, hstart', hstop'⟩ :=
    around_between hsum (by omega) (by omega) hsum' hsum''
  have hleft : ⌊value i.start⌋ ≤ ⌊value i.start⌋ + 10 + k - 2 := by omega
  have hright : ⌈value i.stop⌉ - 10 + k + 2 ≤ ⌈value i.stop⌉ := by omega
  refine ht.mono hi.isFinite.1 hi.stop_near.1 hstart hstop ?_ ?_
  · exact le_trans (by exact_mod_cast hleft) hstart'
  · exact hstop'.trans (by exact_mod_cast hright)

end Interval

/-! ## 2. Images -/

namespace Paint

/-- One of the dots, by its distance to the middle. -/
def dot (bounds : Rect) (offset : Float32) : Rect :=
  ⟨bounds.x + bounds.width / 2 + offset - 2, bounds.y + bounds.height / 2 - 2, 4, 4⟩

def dotOffsets : List Float32 := [-8, 0, 8]

/-- A box whose pixels reach around all three dots. -/
structure HasRoomForDots (bounds : Rect) : Prop where
  across : bounds.across.HasRoom 10
  down : bounds.down.HasRoom 2

theorem holds_of_dot {bounds : Rect} (hbounds : bounds.IsModerate) (h : HasRoomForDots bounds)
    {offset : Float32} (hoffset : offset ∈ dotOffsets) {x y : ℕ}
    (hdot : (Canvas.Span.of (dot bounds offset)).Holds x y) :
    (Canvas.Span.of bounds).Holds x y := by
  have height : value 8 = (8 : ℤ) := value_ofNat (n := 8) (by decide)
  have hknown : ∃ k : ℤ, offset.isFinite ∧ value offset = k ∧ -8 ≤ k ∧ k ≤ 8 := by
    simp only [dotOffsets, List.mem_cons, List.not_mem_nil, or_false] at hoffset
    rcases hoffset with rfl | rfl | rfl
    · obtain ⟨hfinite, hvalue⟩ := value_neg (x := 8) rfl
      exact ⟨-8, hfinite, by rw [hvalue, height]; rfl, by decide, by decide⟩
    · exact ⟨0, rfl, by rw [value_zero]; rfl, by decide, by decide⟩
    · exact ⟨8, rfl, height, by decide, by decide⟩
  obtain ⟨k, hfinite, hk, hk', hk''⟩ := hknown
  exact ⟨hbounds.across.touches_of_around_add h.across hfinite hk hk' hk'' hdot.1,
    hbounds.down.touches_of_around h.down hdot.2⟩

section

variable {canvas : Canvas} {bounds : Rect}

/-- The pixel is one of the box or of a dot. -/
def InBoxOrDot (bounds : Rect) (x y : ℕ) : Prop :=
  (Canvas.Span.of bounds).Holds x y ∨
    ∃ offset ∈ dotOffsets, (Canvas.Span.of (dot bounds offset)).Holds x y

/-- The fill of a place for an image, and its dots, keep to their own pixels. -/
theorem changesOnly_dotMarks :
    canvas.ChangesOnly (InBoxOrDot bounds)
      (canvas.draw (.fill bounds 0 imageColor :: dotMarks bounds)) := by
  have hfill : canvas.ChangesOnly (InBoxOrDot bounds) (canvas.fillRounded bounds 0 imageColor) :=
    (canvas.changesOnly_fillRounded bounds 0 imageColor).mono fun x y _ _ h => .inl h
  have hdot (offset : Float32) (hoffset : offset ∈ dotOffsets) (c : Canvas) :
      c.ChangesOnly (InBoxOrDot bounds)
        (c.fillRounded (dot bounds offset) 2 imageSignColor) :=
    (c.changesOnly_fillRounded (dot bounds offset) 2 imageSignColor).mono
      fun x y _ _ h => .inr ⟨offset, hoffset, h⟩
  have hfirst := hfill.trans (hdot (-8) (by simp [dotOffsets]) _)
  have hsecond := hfirst.trans (hdot 0 (by simp [dotOffsets]) _)
  exact hsecond.trans (hdot 8 (by simp [dotOffsets]) _)

variable (hbounds : bounds.IsFinite) (hclips : canvas.clips = [])
  (hwidth : canvas.picture.width ≤ 2 ^ 23) (hheight : canvas.picture.height ≤ 2 ^ 23)

include hbounds hclips hwidth hheight

/-- The cross is cut off at the box. -/
theorem changesOnly_crossMarks :
    canvas.ChangesOnly (Canvas.Span.of bounds).Holds
      (canvas.draw (.fill bounds 0 imageColor :: crossMarks bounds)) := by
  have hfill := canvas.changesOnly_fillRounded bounds 0 imageColor
  -- the fill stands before the clip, and both lines in it
  have hlines := (Canvas.isWash_line ⟨bounds.x, bounds.y⟩ ⟨bounds.right, bounds.bottom⟩ 1.5
    imageSignColor).comp (Canvas.isWash_line ⟨bounds.right, bounds.y⟩ ⟨bounds.x, bounds.bottom⟩ 1.5
    imageSignColor)
  exact hfill.trans (Canvas.changesOnly_clipped _ hlines hbounds (hfill.clips.trans hclips)
    (hfill.width.le.trans hwidth) (hfill.height.le.trans hheight))

theorem changesOnly_pictureMarks (picture : Picture) (scale : ContentScale)
    (hfit : scale = .fit →
      bounds.IsModerate ∧ picture.width < 2 ^ 32 ∧ picture.height < 2 ^ 32) :
    canvas.ChangesOnly (Canvas.Span.of bounds).Holds
      (canvas.draw (pictureMarks picture scale bounds)) := by
  rw [pictureMarks]
  split
  · exact Canvas.changesOnly_clipped _ (Canvas.isWash_image picture _) hbounds hclips hwidth hheight
  next hclipped =>
    obtain ⟨rfl, hcolumns, hrows, hdest⟩ := Fit.fitted_of_not_clipped hclipped
    obtain ⟨hmoderate, hcolumns', hrows'⟩ := hfit rfl
    rw [hdest]
    exact (canvas.changesOnly_image picture (bounds.fitted picture)).mono
      fun x y hx hy ⟨harea, hsome⟩ => hmoderate.holds_of_nearest? hcolumns hcolumns' hrows hrows'
        harea (hx.trans_le hwidth) (hy.trans_le hheight) hsome

end

/-- What is drawn without a clip has room in its box: a fitted picture, if the numbers of the box
are moderate, and the dots, if its pixels reach around them. -/
def KeepsInside (p : PaintBox) (c : ImageContent) (bounds : Rect) : Prop :=
  match picture? p.images c with
  | some picture =>
    c.scale = .fit → bounds.IsModerate ∧ picture.width < 2 ^ 32 ∧ picture.height < 2 ^ 32
  | none => c.phase = .failed ∨ bounds.IsModerate ∧ HasRoomForDots bounds

/-- An image changes pixels of its box only, whatever has become of it, if it keeps inside.  While
it has not arrived it changes in any box the pixels of the box and of the three dots only. -/
theorem imageMarks_changesOnly (p : PaintBox) (c : ImageContent) {bounds : Rect}
    (hbounds : bounds.IsFinite) {canvas : Canvas} (hclips : canvas.clips = [])
    (hwidth : canvas.picture.width ≤ 2 ^ 23) (hheight : canvas.picture.height ≤ 2 ^ 23) :
    (KeepsInside p c bounds → canvas.ChangesOnly (Canvas.Span.of bounds).Holds
      (canvas.draw (imageMarks p c bounds))) ∧
    (picture? p.images c = none → c.phase ≠ .failed →
      canvas.ChangesOnly (InBoxOrDot bounds) (canvas.draw (imageMarks p c bounds))) := by
  rw [imageMarks, KeepsInside]
  cases hpicture : picture? p.images c with
  | some picture =>
    exact ⟨changesOnly_pictureMarks hbounds hclips hwidth hheight picture c.scale, nofun⟩
  | none =>
    by_cases hfailed : c.phase = .failed
    · simp only [hfailed, if_true]
      exact ⟨fun _ => changesOnly_crossMarks hbounds hclips hwidth hheight,
        fun _ h => absurd rfl h⟩
    · simp only [hfailed, if_false]
      refine ⟨fun h => ?_, fun _ _ => changesOnly_dotMarks⟩
      obtain ⟨hmoderate, hroom⟩ := h.resolve_left id
      exact changesOnly_dotMarks.mono fun x y _ _ h => h.elim id fun ⟨offset, hoffset, hdot⟩ =>
        holds_of_dot hmoderate hroom hoffset hdot

/-- The dots of an image that has not arrived in a box of 30 by 20 pixels. -/
theorem waiting_imageMarks_changesOnly :
    let p : PaintBox := { images := fun _ => .pending }
    let c : ImageContent := { url := none, scale := .fit, phase := .pending }
    let bounds : Rect := ⟨5, 10, 30, 20⟩
    bounds.IsFinite ∧ (Canvas.blank 40 40).clips = [] ∧ KeepsInside p c bounds ∧
      picture? p.images c = none ∧ c.phase ≠ .failed ∧
      (Canvas.blank 40 40).ChangesOnly (Canvas.Span.of bounds).Holds
        ((Canvas.blank 40 40).draw (imageMarks p c bounds)) := by
  intro p c bounds
  have hvalue (n : ℕ) (hn : n < 2 ^ 23) : value (Float32.ofNat n) = n := value_ofNat hn
  have hcount (n : ℕ) (hn : n < 2 ^ 23) : (Float32.ofNat n).isFinite := isFinite_ofNat hn
  have hfinite : bounds.IsFinite :=
    ⟨⟨hcount 5 (by decide), hcount 30 (by decide)⟩, hcount 10 (by decide), hcount 20 (by decide)⟩
  have hmoderate : bounds.IsModerate := by
    refine ⟨⟨hfinite.1, ?_, ?_⟩, hfinite.2, ?_, ?_⟩
    · exact (congrArg abs (hvalue 5 (by decide))).le.trans (by norm_num)
    · exact (congrArg abs (hvalue 30 (by decide))).le.trans (by norm_num)
    · exact (congrArg abs (hvalue 10 (by decide))).le.trans (by norm_num)
    · exact (congrArg abs (hvalue 20 (by decide))).le.trans (by norm_num)
  have hroom : HasRoomForDots bounds := by
    refine ⟨hmoderate.across.hasRoom ?_, hmoderate.down.hasRoom ?_⟩
    · exact le_trans (by norm_num) (hvalue 30 (by decide)).ge
    · exact le_trans (by norm_num) (hvalue 20 (by decide)).ge
  have hkeeps : KeepsInside p c bounds := .inr ⟨hmoderate, hroom⟩
  exact ⟨hfinite, rfl, hkeeps, rfl, nofun,
    (imageMarks_changesOnly p c hfinite rfl (by decide) (by decide)).1 hkeeps⟩

/-- In a small box the dots are drawn over its neighbours. -/
theorem not_forall_imageMarks_changesOnly :
    ¬∀ (p : PaintBox) (c : ImageContent) (bounds : Rect) (canvas : Canvas), bounds.IsFinite →
      canvas.clips = [] →
      canvas.ChangesOnly (Canvas.Span.of bounds).Holds (canvas.draw (imageMarks p c bounds)) := by
  intro h
  have hkept := (h { images := fun _ => .pending } { url := none, scale := .fit, phase := .pending }
    ⟨8, 0, 4, 4⟩ (.blank 4 4) ⟨⟨rfl, rfl⟩, rfl, rfl⟩ rfl).pixel? 1 1 (by decide +kernel)
  exact absurd hkept (by decide +kernel)

end Paint

end ContentCard
