import ContentCard.Proofs.Card.Correspondence
import ContentCard.Proofs.Layout.Columns
import ContentCard.Proofs.Layout.Weights
import ContentCard.Text.Measure

/-!
# Multiplied weights

The weights of a container's children are multiplied by one power of two (`Node.ReweighedAt`).  Then
the room is shared out as before and the layout stays the same, as long as no weight is below one
and no share of a length is subnormal.  Where weights below one add up to less than one, some of the
room is not shared out at all, and the layout changes.
-/

namespace ContentCard

/-! ## 1. Nodes with multiplied weights -/

namespace Declarations

theorem weight_nonneg (d : Declarations) : 0 ≤ d.weight := by
  rw [weight]
  cases h : ((d.float? "weight").or (d.float? "flex")).filter fun w => 0 ≤ w with
  | none => exact (by decide : (0 : Float32) ≤ 0)
  | some w => exact of_decide_eq_true (Option.filter_eq_some_iff.mp h).2

end Declarations

namespace Node

/-- The same node with another weight, in a relation to its own. -/
def Reweighed (R : Float32 → Float32 → Prop) (n m : Node) : Prop :=
  ∃ d, n.data.style.AgreeOff Declarations.weightKeys d ∧ R n.data.style.weight d.weight ∧
    m = .mk { n.data with style := d } n.children

/-- The same tree with other weights of the children of the node at a position. -/
inductive ReweighedAt (R : Float32 → Float32 → Prop) : List ℕ → Node → Node → Prop
  | here {data : NodeData} {ns ms : List Node} (hchildren : List.Forall₂ (Reweighed R) ns ms)
      (hsum : (Number.sum (ns.map (·.data.style.weight))).isFinite)
      (hsum' : (Number.sum (ms.map (·.data.style.weight))).isFinite) :
      ReweighedAt R [] (.mk data ns) (.mk data ms)
  | inside {data : NodeData} {before after : List Node} {n m : Node} {path : List ℕ}
      (h : ReweighedAt R path n m) :
      ReweighedAt R (before.length :: path) (.mk data (before ++ n :: after))
        (.mk data (before ++ m :: after))

end Node

/-- The second number is the first one times a power of two, and unless they are zero neither is
smaller than one. -/
def Number.WeightScaled (k : ℤ) (x y : Float32) : Prop :=
  Number.Scaled k x y ∧ (0 < x → 1 ≤ x ∧ 1 ≤ y)

/-- Only a view shows its children. -/
theorem Visual.ofNode_mk (s : Surroundings) (parent : Direction) (data : NodeData)
    (ns : List Node) :
    Visual.ofNode s parent (.mk data ns) =
      let style := Style.resolve s.config parent data.style
      if data.type = .view then
        .container (style.box s.config parent .unknown)
          ⟨style.direction, style.justifyContent, style.alignItems⟩
          (ns.map (Visual.ofNode s style.direction))
      else Visual.ofNode s parent (.mk data []) := by
  rw [Visual.ofNode]
  cases h : data.type with
  | view => rw [if_pos rfl, Visual.ofNodes_eq_map]
  | text | image | button | unknown => rw [if_neg nofun, Visual.ofNode, h]

namespace Layout

open Number (Proportional)

variable {k : ℤ} (s : Surroundings) (parent : Direction)

theorem Item.ofNode_reweighed {n m : Node} (h : n.Reweighed (Number.WeightScaled k) m) :
    ∃ g, Proportional k (Item.ofVisual parent (Visual.ofNode s parent n)).style.grow g ∧
      Item.ofVisual parent (Visual.ofNode s parent m) =
        (Item.ofVisual parent (Visual.ofNode s parent n)).withGrow g := by
  obtain ⟨data, ns⟩ := n
  obtain ⟨d, hagree, ⟨hscaled, hone⟩, rfl⟩ := h
  have hvisual := Visual.ofNode_reweighed s parent data ns hagree hscaled.pos_iff
  have hitem := Item.ofVisual_withWeight (Style.resolve s.config parent d).weight parent
    (Visual.ofNode s parent (.mk data ns))
  rw [← hvisual] at hitem
  refine ⟨_, ?_, hitem⟩
  -- the weight is the growth along a main axis, and nothing grows elsewhere
  obtain ⟨hbasis, hgrow, hw, hmain⟩ | ⟨hbasis, hgrow⟩ := Item.grow_ofNode s parent (.mk data ns)
  · rw [hbasis, if_pos rfl, hgrow, Style.weight_resolve, if_pos hmain]
    exact hscaled.proportional (hone hw).1 (hone hw).2
  · rw [hbasis, if_neg Bool.false_ne_true, hgrow]
    exact .inl ⟨rfl, rfl⟩

/-- Growth adds up to a number if the weights do. -/
theorem Item.isFinite_sum_grow {ns : List Node}
    (hfinite : ∀ n ∈ ns, n.data.style.weight.isFinite)
    (hsum : (Number.sum (ns.map (·.data.style.weight))).isFinite) :
    (Number.sum ((ns.map fun n => Item.ofVisual parent (Visual.ofNode s parent n)).map
      (·.style.grow))).isFinite := by
  have hnonneg {n : Node} (hn : n ∈ ns) : 0 ≤ Number.value n.data.style.weight := by
    have hlt := Number.not_lt_of_le n.data.style.weight_nonneg
    rwa [Number.lt_iff_value_lt (hfinite n hn) rfl, not_lt, Number.value_zero] at hlt
  refine Number.isFinite_sum (List.sublistForall₂_iff.mpr ⟨_, ?_, List.Sublist.refl _⟩)
    (List.forall_mem_map.mpr fun n hn => hnonneg hn) hsum
  rw [List.map_map, List.forall₂_map_left_iff, List.forall₂_map_right_iff, List.forall₂_same]
  intro n hn
  obtain ⟨-, hgrow, -⟩ | ⟨-, hgrow⟩ := Item.grow_ofNode s parent n
  · rw [Function.comp, hgrow]
    exact ⟨hnonneg hn, le_rfl, hfinite n hn⟩
  · rw [Function.comp, hgrow]
    exact ⟨le_rfl, hnonneg hn, rfl⟩

theorem Item.allRegrown_ofNodes {ns ms : List Node}
    (h : List.Forall₂ (Node.Reweighed (Number.WeightScaled k)) ns ms)
    (hsum : (Number.sum (ns.map (·.data.style.weight))).isFinite)
    (hsum' : (Number.sum (ms.map (·.data.style.weight))).isFinite) :
    Item.AllRegrown k (ns.map fun n => Item.ofVisual parent (Visual.ofNode s parent n))
      (ms.map fun n => Item.ofVisual parent (Visual.ofNode s parent n)) := by
  have hfinite {n m : Node} (h : n.Reweighed (Number.WeightScaled k) m) :
      n.data.style.weight.isFinite ∧ m.data.style.weight.isFinite := by
    obtain ⟨d, -, ⟨hscaled, -⟩, rfl⟩ := h
    exact ⟨hscaled.isFinite_left, hscaled.isFinite_right⟩
  have hleft := (List.forall₂_and_left ns ms).mp (h.imp fun n m h => ⟨(hfinite h).1, h⟩)
  have hright := (List.forall₂_and_left ms ns).mp (h.imp fun n m h => ⟨(hfinite h).2, h⟩).flip
  refine ⟨?_, isFinite_sum_grow s parent hleft.1 hsum, isFinite_sum_grow s parent hright.1 hsum'⟩
  rw [List.forall₂_map_left_iff, List.forall₂_map_right_iff]
  exact h.imp fun n m h => Item.ofNode_reweighed s parent h

/-- In a parent without a main axis nothing grows. -/
theorem Item.ofNode_reweighed_overlay {n m : Node}
    (h : n.Reweighed (Number.WeightScaled k) m) :
    Item.ofVisual .overlay (Visual.ofNode s .overlay m) =
      Item.ofVisual .overlay (Visual.ofNode s .overlay n) := by
  obtain ⟨g, hg, hm⟩ := Item.ofNode_reweighed s .overlay h
  have hgrow : (Item.ofVisual .overlay (Visual.ofNode s .overlay n)).style.grow = 0 := by
    obtain ⟨-, -, -, hmain⟩ | ⟨-, hgrow⟩ := Item.grow_ofNode s .overlay n
    · nomatch hmain
    · exact hgrow
  have hzero : g = 0 := by
    rw [hgrow] at hg
    exact (hg.lt_one_iff.mp (by decide)).2
  rw [hm, hzero, ← hgrow, Item.withGrow_self]

/-! ## 2. Layouts -/

/-- The visuals have the same placement, whatever is remembered of them. -/
def PlacedAlike (v v' : Visual) : Prop :=
  ∀ origin exact memo, placed origin exact v' memo = placed origin exact v memo

theorem placedAlike_withWeight (w : Float32) (v : Visual) : PlacedAlike v (v.withWeight w) := by
  cases v <;> exact fun _ _ _ => rfl

theorem placedAlike_container {vs vs' : List Visual} (h : List.Forall₂ PlacedAlike vs vs')
    (box : Box) (a : Arrangement) :
    PlacedAlike (.container box a vs) (.container box a vs') := by
  have hall (origin exact : Point) (memos : List Memo) :
      placedAll origin exact vs' memos = placedAll origin exact vs memos := by
    induction h generalizing memos with
    | nil => rfl
    | cons hv _ ih => rw [placedAll, placedAll, hv, ih]
  intro origin exact memo
  rw [placed, placed]
  simp only [hall]
  rfl

theorem memo_container_congr (parent : Direction) (box : Box) (a : Arrangement)
    {vs vs' : List Visual} (h : vs'.map (fun v => (Item.ofVisual a.direction v).memo) =
      vs.map (fun v => (Item.ofVisual a.direction v).memo)) :
    (Item.ofVisual parent (.container box a vs')).memo =
      (Item.ofVisual parent (.container box a vs)).memo := by
  have hmemo (vs : List Visual) : (Item.ofVisual parent (.container box a vs)).memo =
      .mk .empty .origin (vs.map fun v => (Item.ofVisual a.direction v).memo) := by
    rw [Item.ofVisual, Item.memo, Item.memos_eq_map, Item.ofVisuals_eq_map, List.map_map]
    rfl
  rw [hmemo, hmemo, h]

/-- The layout does not tell the visuals apart while it looks out for what strains in the line at
the position. -/
structure AlikeAt (k : ℤ) (measure : Measurer) (path : List ℕ) (parent : Direction)
    (v v' : Visual) : Prop where
  style : (Item.ofVisual parent v').style = (Item.ofVisual parent v).style
  memo : (Item.ofVisual parent v').memo = (Item.ofVisual parent v).memo
  sizer : (Item.ofVisual parent v').carefulSizer (-k) measure path =
    (Item.ofVisual parent v).carefulSizer k measure path
  placed : PlacedAlike v v'

theorem AlikeAt.inside {measure : Measurer} {path : List ℕ} {a : Arrangement} {v v' : Visual}
    (h : AlikeAt k measure path a.direction v v') (parent : Direction) (box : Box)
    (before after : List Visual) :
    AlikeAt k measure (before.length :: path) parent (.container box a (before ++ v :: after))
      (.container box a (before ++ v' :: after)) where
  style := rfl
  memo := memo_container_congr parent box a (by simp only [List.map_append, List.map_cons, h.memo])
  sizer := by
    have hlength : before.length = (before.map (Item.ofVisual a.direction)).length :=
      (List.length_map _).symm
    simp only [Item.ofVisual, Item.ofVisuals_eq_map, List.map_append, List.map_cons, hlength]
    exact Item.carefulSizer_congr h.style h.sizer _ _ _ _
  placed := by
    have hsame (vs : List Visual) : List.Forall₂ PlacedAlike vs vs :=
      List.forall₂_same.mpr fun _ _ _ _ _ => rfl
    exact placedAlike_container
      (List.rel_append (hsame before) (.cons h.placed (hsame after))) box a

/-- Inside a leaf there is nothing to look out for. -/
theorem AlikeAt.leaf (measure : Measurer) (path : List ℕ) {v : Visual}
    (h : ∀ box a vs, v ≠ .container box a vs) : AlikeAt k measure path parent v v where
  style := rfl
  memo := rfl
  sizer := by
    have hleaf (k : ℤ) : (Item.ofVisual parent v).carefulSizer k measure path =
        (Item.ofVisual parent v).sizer measure := by
      cases v with
      | container box a vs => exact absurd rfl (h box a vs)
      | text box t =>
        rw [Item.ofVisual]
        split <;> cases path <;> rfl
      | image | button | placeholder => cases path <;> rfl
    rw [hleaf, hleaf]
  placed _ _ _ := rfl

/-- The children's growth is multiplied in a line, and they do not grow in an overlay. -/
theorem AlikeAt.here {measure : Measurer} {ns ms : List Node}
    (h : List.Forall₂ (Node.Reweighed (Number.WeightScaled k)) ns ms)
    (hsum : (Number.sum (ns.map (·.data.style.weight))).isFinite)
    (hsum' : (Number.sum (ms.map (·.data.style.weight))).isFinite) (box : Box) (a : Arrangement) :
    AlikeAt k measure [] parent (.container box a (ns.map (Visual.ofNode s a.direction)))
      (.container box a (ms.map (Visual.ofNode s a.direction))) where
  style := rfl
  memo := by
    refine memo_container_congr parent box a ?_
    rw [List.map_map, List.map_map]
    refine map_eq_of_forall₂ h fun n m hn => ?_
    obtain ⟨g, -, hg⟩ := Item.ofNode_reweighed s a.direction hn
    exact (congrArg Item.memo hg).trans (Item.memo_withGrow g _)
  sizer := by
    obtain ⟨direction, justify, align⟩ := a
    simp only [Item.ofVisual, Item.ofVisuals_eq_map, List.map_map]
    cases direction with
    | row | column =>
      exact Item.carefulSizer_regrown (Item.allRegrown_ofNodes s _ h hsum hsum') _ _ _ _
    -- an overlay looks at all of its items' styles, but here these are the same
    | overlay =>
      have hitems := map_eq_of_forall₂ h fun n m hn => Item.ofNode_reweighed_overlay s hn
      exact congrArg (fun items => (Item.container _ _ items).sizer measure) hitems
  placed := by
    refine placedAlike_container ?_ box a
    rw [List.forall₂_map_left_iff, List.forall₂_map_right_iff]
    refine h.imp ?_
    rintro ⟨data, ns⟩ _ ⟨d, hagree, ⟨hscaled, -⟩, rfl⟩
    rw [Node.data, Node.children,
      Visual.ofNode_reweighed s a.direction data ns hagree hscaled.pos_iff]
    exact placedAlike_withWeight _ _

theorem ofNode_ne_container {data : NodeData} (h : data.type ≠ .view) (box : Box) (a : Arrangement)
    (vs : List Visual) : Visual.ofNode s parent (.mk data []) ≠ .container box a vs := by
  rw [Visual.ofNode]
  cases htype : data.type with
  | view => exact absurd htype h
  | text | image | button | unknown => exact nofun

/-- At the position the growth changes, and above it nothing does. -/
theorem alikeAt_ofNode {measure : Measurer} {path : List ℕ} {n m : Node}
    (h : n.ReweighedAt (Number.WeightScaled k) path m) :
    AlikeAt k measure path parent (Visual.ofNode s parent n) (Visual.ofNode s parent m) := by
  induction h generalizing parent with
  | @here data ns ms hchildren hsum hsum' =>
    rw [Visual.ofNode_mk, Visual.ofNode_mk s parent data ms]
    dsimp only
    split
    · exact AlikeAt.here s parent hchildren hsum hsum' _
        ⟨(Style.resolve s.config parent data.style).direction, _, _⟩
    · exact AlikeAt.leaf parent measure _ (ofNode_ne_container s parent ‹_›)
  | @inside data before after n m path _ ih =>
    rw [Visual.ofNode_mk, Visual.ofNode_mk s parent data (before ++ m :: after)]
    dsimp only
    split
    · generalize Style.resolve s.config parent data.style = style
      have hlength : before.length = (before.map (Visual.ofNode s style.direction)).length :=
        (List.length_map _).symm
      rw [List.map_append, List.map_append, List.map_cons, List.map_cons, hlength]
      exact (ih style.direction).inside parent _ _ _
    · exact AlikeAt.leaf parent measure _ (ofNode_ne_container s parent ‹_›)

/-- What an item remembers is all that the layout of the surface takes from it. -/
theorem AlikeAt.carefulRecord_eq {measure : Measurer} {path : List ℕ} {v v' : Visual}
    (h : AlikeAt k measure path .column v v') (room : Available) :
    (Item.ofVisual .column v').carefulRecord (-k) path room measure =
      (Item.ofVisual .column v).carefulRecord k path room measure := by
  have hsizer := Item.carefulSizer_congr h.style h.sizer (surfaceStyle room)
    (.line .vertical .start .start) [] []
  change ((Item.ofVisual .column v').onSurface room).carefulSizer (-k) measure (0 :: path) =
    ((Item.ofVisual .column v).onSurface room).carefulSizer k measure (0 :: path) at hsizer
  have hmemo : ((Item.ofVisual .column v').onSurface room).memo =
      ((Item.ofVisual .column v).onSurface room).memo := by
    simp only [Item.onSurface, Item.memo, Item.memos, h.memo]
  rw [Item.carefulRecord, hsizer, hmemo]
  rfl

end Layout

/-! ## 3. Layouts with multiplied weights -/

/-- The layout does not change when the weights of a container's children are multiplied by a power
of two, if no sum of weights is out of range, no share of a length is subnormal, and no weight
becomes or has been smaller than one. -/
theorem Template.placement_reweighed {k : ℤ} {path : List ℕ} {t t' : Template} (s : Surroundings)
    (room : Available) (ruler : Measurer)
    (h : t.root.ReweighedAt (Number.WeightScaled k) path t'.root)
    (hnormal : (t.render s).NoUnderflowAt k path room ruler) :
    ((t.render s).layout? room ruler).isSome ∧
      (t'.render s).layout? room ruler = (t.render s).layout? room ruler := by
  have halike : Layout.AlikeAt k ruler path .column (t.render s) (t'.render s) :=
    Layout.alikeAt_ofNode s .column h
  have hcareful := halike.carefulRecord_eq room
  -- neither layout halts, so both are the careful ones
  have hrecord := Layout.Item.carefulRecord_eq hnormal
  have hrecord' := Layout.Item.carefulRecord_eq
    ((congrArg Layout.Memo.isHalted hcareful).trans hnormal)
  rw [Visual.NoUnderflowAt, hrecord, Layout.Item.isHalted_surfaceRecord] at hnormal
  have hsurface := hrecord'.symm.trans (hcareful.trans hrecord)
  have harranged : (Layout.Item.ofVisual .column (t'.render s)).arranged room ruler =
      (Layout.Item.ofVisual .column (t.render s)).arranged room ruler := by
    rw [Layout.Item.arranged_eq, Layout.Item.arranged_eq, hsurface]
  rw [Visual.layout?, Visual.layout?, Visual.placement, Visual.placement, harranged, halike.placed,
    hnormal]
  exact ⟨rfl, rfl⟩

/-- A view that is 20 pixels high and has a weight. -/
def weightedView (w : Json.Number) (ns : List Node) : Node :=
  .mk ⟨.view, ⟨[("height", .number (.natural 20)), ("weight", .number w)]⟩, none, none, none, none,
    none⟩ ns

/-- A row that is 400 pixels wide. -/
def wideRow (ns : List Node) : Template where
  root := .mk ⟨.view, ⟨[("flexDirection", .string "row"), ("width", .number (.natural 400))]⟩,
      none, none, none, none, none⟩ ns

theorem reweighed_weightedView {R : Float32 → Float32 → Prop} {w w' : Json.Number} {ns : List Node}
    (h : R (weightedView w ns).data.style.weight (weightedView w' ns).data.style.weight) :
    (weightedView w ns).Reweighed R (weightedView w' ns) := by
  refine ⟨_, fun key hkey => ?_, h, rfl⟩
  have hweight : key ≠ "weight" := fun heq => hkey (heq ▸ List.mem_cons_self)
  simp only [weightedView, Node.data, Json.Members.get?_cons, Json.Members.get?_nil,
    if_neg hweight]

/-- A host without fonts and pictures. -/
def plainHost : Surroundings := ⟨{}, Estimate.measure {}, fun _ => .pending⟩

/-- In the wide row stands a row with a weight, and in this one stand views with the given weights,
each around a view of 30 pixels. -/
def nestedRow (ws : List Json.Number) : Template :=
  let wideView : Node := .mk ⟨.view, ⟨[("width", .number (.natural 30))]⟩, none, none, none, none,
    none⟩ []
  wideRow [.mk ⟨.view, ⟨[("flexDirection", .string "row"), ("weight", .number (.natural 1))]⟩,
      none, none, none, none, none⟩ (ws.map (weightedView · [wideView]))]

/-- One, one and two are as two, two and four, also in a row whose length is asked for. -/
theorem Template.placement_reweighed_weightedRow :
    let t := nestedRow [.natural 1, .natural 1, .natural 2]
    let t' := nestedRow [.natural 2, .natural 2, .natural 4]
    (t.root.ReweighedAt (Number.WeightScaled 1) [0] t'.root ∧
        (t.render plainHost).NoUnderflowAt 1 [0] ⟨375, none⟩ plainHost.measure) ∧
      ((t.render plainHost).layout? ⟨375, none⟩ plainHost.measure).isSome ∧
      (t'.render plainHost).layout? ⟨375, none⟩ plainHost.measure =
        (t.render plainHost).layout? ⟨375, none⟩ plainHost.measure := by
  intro t t'
  have hone (ns : List Node) : (weightedView (.natural 1) ns).data.style.weight = 1 := by
    show (weightedView (.natural 1) []).data.style.weight = 1
    decide +kernel
  have htwo (ns : List Node) : (weightedView (.natural 2) ns).data.style.weight = 2 := by
    show (weightedView (.natural 2) []).data.style.weight = 2
    decide +kernel
  have hfour (ns : List Node) : (weightedView (.natural 4) ns).data.style.weight = 4 := by
    show (weightedView (.natural 4) []).data.style.weight = 4
    decide +kernel
  have hdouble (ns : List Node) : (weightedView (.natural 1) ns).Reweighed (Number.WeightScaled 1)
      (weightedView (.natural 2) ns) := by
    refine reweighed_weightedView ?_
    rw [hone, htwo]
    refine ⟨.of_unpack (u := .finite .positive (2 ^ 23) (-23) ?_) rfl rfl rfl, fun _ => ?_⟩ <;>
      decide
  have hdouble' (ns : List Node) : (weightedView (.natural 2) ns).Reweighed (Number.WeightScaled 1)
      (weightedView (.natural 4) ns) := by
    refine reweighed_weightedView ?_
    rw [htwo, hfour]
    refine ⟨.of_unpack (u := .finite .positive (2 ^ 23) (-22) ?_) rfl rfl rfl, fun _ => ?_⟩ <;>
      decide
  have hreweighed : t.root.ReweighedAt (Number.WeightScaled 1) [0] t'.root :=
    @Node.ReweighedAt.inside _ _ [] [] _ _ _ (.here
      (.cons (hdouble _) (.cons (hdouble _) (.cons (hdouble' _) .nil))) (by decide +kernel)
      (by decide +kernel))
  have hnormal : (t.render plainHost).NoUnderflowAt 1 [0] ⟨375, none⟩ plainHost.measure := by
    unfold Visual.NoUnderflowAt
    decide +kernel
  exact ⟨⟨hreweighed, hnormal⟩, Template.placement_reweighed plainHost _ _ hreweighed hnormal⟩

/-- Two quarters take a half of the room, and their quadruples take all of it. -/
theorem Template.not_forall_placement_reweighed :
    ¬ ∀ (k : ℤ) (path : List ℕ) (t t' : Template) (s : Surroundings) (room : Available)
      (ruler : Measurer) (box : Box) (a : Arrangement) (vs : List Visual) (w : Float32),
      t.root.ReweighedAt (Number.Scaled k) path t'.root →
      descend Visual.children (t.render s) path = some (.container box a vs) →
      a.direction = .row → box.width = .fixed w →
      (t.render s).NoUnderflowAt k path room ruler →
      (t'.render s).NoUnderflowAt (-k) path room ruler →
      (t'.render s).layout? room ruler = (t.render s).layout? room ruler := by
  intro h
  have hquadruple : (weightedView (.real 0.25) []).Reweighed (Number.Scaled 2)
      (weightedView (.natural 1) []) := by
    refine reweighed_weightedView ?_
    have hquarter : (weightedView (.real 0.25) []).data.style.weight = 0.25 := by decide +kernel
    have hone : (weightedView (.natural 1) []).data.style.weight = 1 := by decide +kernel
    rw [hquarter, hone]
    exact .of_unpack (u := .finite .positive (2 ^ 23) (-25) (by decide)) rfl rfl rfl
  let row (w : Json.Number) : Template := wideRow [weightedView w [], weightedView w []]
  have hreweighed :
      (row (.real 0.25)).root.ReweighedAt (Number.Scaled 2) [] (row (.natural 1)).root :=
    .here (.cons hquadruple (.cons hquadruple .nil)) (by decide +kernel) (by decide +kernel)
  have hnormal (k : ℤ) (t : Template)
      (hend : ((t.render plainHost).layout? ⟨375, none⟩ plainHost.measure).isSome)
      (hrow : (t.render plainHost).IsRowBelowColumns []) :
      (t.render plainHost).NoUnderflowAt k [] ⟨375, none⟩ plainHost.measure :=
    Visual.noUnderflowAt_of_rowBelowColumns hrow hend k
  have hdirection : Direction.parse "row" = .row := by decide +kernel
  obtain ⟨v, hv⟩ : ∃ v, ((row (.real 0.25)).render plainHost).box.width = .fixed v := by
    have hwidth : (((row (.real 0.25)).render plainHost).box.width == .fixed 400) = true := by
      decide +kernel
    generalize ((row (.real 0.25)).render plainHost).box.width = e at hwidth
    cases e with
    | fixed v => exact ⟨v, rfl⟩
    | percent | weighted | fill | natural => nomatch hwidth
  have heq := h 2 [] _ _ plainHost ⟨375, none⟩ plainHost.measure _ _ _ v hreweighed rfl hdirection
    hv (hnormal 2 _ (by decide +kernel) hdirection) (hnormal (-2) _ (by decide +kernel) hdirection)
  have hwidths := congrArg (fun p : Option Placement => p.map (·.children.map (·.frame.width))) heq
  exact absurd hwidths (by decide +kernel)

end ContentCard
