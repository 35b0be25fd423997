import ContentCard.Layout.Leaf
import ContentCard.Proofs.Text.Greedy
import ContentCard.Proofs.Text.Wrap

/-!
# Lines that are wrapped again

The lines of a text, joined by line feeds, are the lines of the joined text: each of them is a
paragraph of its own there, and fits.  So the joined text is as high as its lines.
-/

namespace ContentCard

namespace Text

variable {advance : Char → Float32} {limit : Float32}

/-- What a line is, wherever it comes from. -/
theorem of_mem_wrap {limit : Option Float32} {text line : List Char}
    (h : line ∈ wrap advance limit text) :
    '\n' ∉ line ∧ ∀ l ∈ limit, Fits advance l line := by
  match limit with
  | none => exact ⟨not_mem_of_mem_paragraphs h, nofun⟩
  | some limit =>
    obtain ⟨p, hp, hline⟩ := List.mem_flatMap.mp h
    obtain ⟨b, hlines, hparagraph, hgreedy⟩ := exists_breaking advance limit p
    have hmem : line ∈ b.lines := hlines ▸ hline
    refine ⟨fun hfeed => not_mem_of_mem_paragraphs hp ?_, fun l hl => ?_⟩
    · have hin := Breaking.mem_paragraph hmem hfeed
      rwa [hparagraph] at hin
    · obtain rfl := Option.some.inj hl
      exact hgreedy.fits line hmem

theorem wrap_ne_nil (limit : Option Float32) (text : List Char) :
    wrap advance limit text ≠ [] := by
  have hparagraphs : paragraphs text ≠ [] := paragraphs_eq_splitOn text ▸ List.splitOn_ne_nil _ _
  match limit with
  | none => exact hparagraphs
  | some limit =>
    intro hnil
    obtain ⟨p, hp⟩ := List.exists_mem_of_ne_nil _ hparagraphs
    obtain ⟨b, hlines, -⟩ := exists_breaking advance limit p
    exact b.lines_ne_nil (hlines.trans (List.flatMap_eq_nil_iff.mp hnil p hp))

theorem paragraphs_joined (limit : Option Float32) (text : List Char) :
    paragraphs (['\n'].intercalate (wrap advance limit text)) = wrap advance limit text := by
  rw [paragraphs_eq_splitOn]
  exact List.splitOn_intercalate '\n' (fun line hline => (of_mem_wrap hline).1)
    (wrap_ne_nil limit text)

theorem wrap_joined (limit : Option Float32) (text : List Char) :
    wrap advance limit (['\n'].intercalate (wrap advance limit text)) =
      wrap advance limit text := by
  match limit with
  | none => exact paragraphs_joined none text
  | some limit =>
    show (paragraphs _).flatMap (wrapFrom advance limit [] 0) = _
    rw [paragraphs_joined]
    calc
      (wrap advance (some limit) text).flatMap (wrapFrom advance limit [] 0)
        = (wrap advance (some limit) text).flatMap fun line => [line] :=
          List.flatMap_congr fun line hline => wrapFrom_of_fits ((of_mem_wrap hline).2 limit rfl)
      _ = wrap advance (some limit) text := List.flatMap_singleton' _

end Text

namespace Measurer

variable (m : Measurer) (text : String) (size : Float32) (weight : FontWeight)
  (limit : Option Float32)

theorem map_toList_wrap : (m.wrap text size weight limit).map String.toList =
    Text.wrap (m.advance size weight) limit text.toList := by
  rw [wrap, List.map_map]
  exact List.map_id'' (fun _ => String.toList_ofList) _

theorem toList_joined : ("\n".intercalate (m.wrap text size weight limit)).toList =
    ['\n'].intercalate (Text.wrap (m.advance size weight) limit text.toList) := by
  rw [String.toList_intercalate, map_toList_wrap]
  rfl

end Measurer

/-- A joined text has one paragraph for each of its lines. -/
theorem Estimate.height_joined (e : Estimate) (m : Measurer) (text : String) (size : Float32)
    (weight : FontWeight) (limit : Option Float32) :
    (e.measure ("\n".intercalate (m.wrap text size weight limit)) size weight).height =
      Float32.ofNat (m.wrap text size weight limit).length * e.lineHeight size := by
  have hlength : (m.wrap text size weight limit).length =
      (Text.wrap (m.advance size weight) limit text.toList).length := List.length_map _
  rw [Estimate.measure, Measurer.toList_joined, Text.paragraphs_joined, hlength]

/-- Wrapping the lines of a text again, joined by line feeds, changes nothing.  So where the height
of a text in the layout is not settled, it is that of its lines. -/
theorem Measurer.wrap_idempotent (m : Measurer) (text : String) (size : Float32)
    (weight : FontWeight) (limit : Option Float32) :
    m.wrap ("\n".intercalate (m.wrap text size weight limit)) size weight limit =
        m.wrap text size weight limit ∧
      (∀ line ∈ m.wrap text size weight limit, '\n' ∉ line.toList) ∧
      m.wrap text size weight limit ≠ [] ∧
      ∀ (e : Estimate) (run : Layout.Run) (width : Layout.Known)
        (space : Layout.Sides Layout.Space),
        (run.contentSize e.measure ⟨width, none⟩ space).height =
          Float32.ofNat
              (e.measure.wrap run.content run.fontSize run.fontWeight
                (Layout.lineLimit space.width)).length *
            (run.fontSize + e.lineHeightExtra) := by
  refine ⟨?_, fun line hline => ?_, ?_, fun e run width space => ?_⟩
  · rw [Measurer.wrap, toList_joined, Text.wrap_joined]
    rfl
  · have hmem : line.toList ∈ (m.wrap text size weight limit).map String.toList :=
      List.mem_map_of_mem hline
    rw [map_toList_wrap] at hmem
    exact (Text.of_mem_wrap hmem).1
  · exact mt List.map_eq_nil_iff.mp (Text.wrap_ne_nil limit text.toList)
  · obtain _ | width := width <;>
      exact e.height_joined e.measure run.content run.fontSize run.fontWeight _

end ContentCard
