import WireDiagram.Check.Pages
import WireDiagram.Proofs.Blocks
import WireDiagram.Proofs.Deciding
import WireDiagram.Proofs.Reading

/-!
# Checks of pages

The check of pages is given a text and finds everything else out by itself: where pages and rows
end, how wide the labels are, which rows go on. On the text of a readable diagram it finds what the
diagram has, so that all it can object to is a layer that is wider than the budget
(`Diagram.IsReadable.decides_checkPages`). Labels and marks are not counted.
-/

namespace WireDiagram

open Split

namespace PageCheck

theorem labelWidth_eq {d : Diagram} {count : Nat} (hlabels : d.rowLabels = wireLabels count)
    (hpos : 0 < count) : labelWidth count = .ok d.labelWidth := by
  have hne : ((List.range count).map fun w ↦ (wireLabel w).length) ≠ [] :=
    List.ne_nil_of_mem (List.mem_map_of_mem (List.mem_range.mpr hpos))
  obtain ⟨width, hwidth⟩ := Option.ne_none_iff_exists'.mp (mt List.max?_eq_none_iff.mp hne)
  obtain ⟨hmem, hle⟩ := List.max?_eq_some_iff.mp hwidth
  have hrows : (d.rowLabels.map String.length).max? = some width := by
    rw [hlabels, wireLabels, List.map_map]
    refine List.max?_eq_some_iff.mpr ⟨?_, List.forall_mem_map.mpr fun r hr ↦ ?_⟩
    · obtain ⟨w, hw, rfl⟩ := List.mem_map.mp hmem
      have hlt := List.mem_range.mp hw
      refine List.mem_map.mpr ⟨2 * w + 1, List.mem_range.mpr (by omega), ?_⟩
      rw [Function.comp_apply, if_pos (by omega), show (2 * w + 1) / 2 = w by omega]
    · have hlt := List.mem_range.mp hr
      rw [Function.comp_apply]
      split
      · exact hle _ (List.mem_map.mpr ⟨r / 2, List.mem_range.mpr (by omega), rfl⟩)
      · exact Nat.zero_le width
  rw [labelWidth, hwidth, Diagram.labelWidth, hrows, Option.getD_some]

theorem rowsOf_lineText {lines : List (List Char)} (h : ∀ l ∈ lines, '\n' ∉ l) (page : Nat) :
    rowsOf lines.length page (lineText lines) = .ok lines := by
  simp only [rowsOf, split_lineText h, List.getLast?_concat, List.dropLast_concat, ne_eq,
    not_true_eq_false, if_false]

theorem decides_checkRow {budget : Value} {columns : Int} {labelWidth page : Nat} {goesOn : Bool}
    {row content : List Char} (h : (if page = 0 then row.drop labelWidth else row) =
      content ++ if goesOn then [continuationMark] else []) :
    Decides (checkRow budget columns labelWidth page goesOn row) ()
      ((content.length : Int) ≤ columns) := by
  refine Decides.of_iff (p := ¬(content.length : Int) > columns) ?_ Int.not_lt
  unfold checkRow
  rw [h]
  cases goesOn with
  | false =>
    simp only [Bool.false_eq_true, if_false, List.append_nil]
    exact Decides.ite_not rfl
  | true =>
    simp only [if_true, unmark, List.getLast?_concat, List.dropLast_concat]
    exact Decides.ite_not rfl

end PageCheck

namespace Diagram.IsReadable

open PageCheck

variable {d : Diagram} (h : d.IsReadable)

include h

/-- **A row is checked**: what is left of it without the label and the mark is a slice of the
canvas. -/
theorem decides_checkRow (budget : Value) (columns : Int) {isFirst goesOn : Bool} {page : Nat}
    (hpage : isFirst = true ↔ page = 0) {start stop : Int} (hstart : 0 ≤ start)
    (hle : start ≤ stop) (hstop : stop ≤ d.canvas.width) {line : List Char}
    (hline : line ∈ d.linesOf isFirst goesOn start stop) :
    Decides (checkRow budget columns d.labelWidth page goesOn line) ()
      (stop - start ≤ columns) := by
  obtain ⟨margin, l, hmargin, hl, rfl⟩ := h.isRegular.exists_of_mem_linesOf hline
  have hlength : ((Position.slice l start stop).length : Int) = stop - start :=
    Position.length_slice hstart hle (by rw [Canvas.length_of_mem_lines h.isSingle hl]; exact hstop)
  rw [← hlength]
  refine PageCheck.decides_checkRow ?_
  have hmargin' := hmargin.length_eq
  rw [List.append_assoc]
  split
  · rw [if_pos (hpage.mpr ‹_›)] at hmargin'
    rw [← hmargin', List.drop_left]
  · rw [if_neg fun hfirst ↦ ‹¬page = 0› (hpage.mp hfirst)] at hmargin'
    rw [List.eq_nil_of_length_eq_zero hmargin', List.nil_append]

theorem rowsOf_linesOf (page : Nat) (isFirst goesOn : Bool) (start stop : Int) :
    rowsOf d.canvas.height page (lineText (d.linesOf isFirst goesOn start stop)) =
      .ok (d.linesOf isFirst goesOn start stop) := by
  rw [← h.isRegular.length_linesOf isFirst goesOn start stop]
  exact rowsOf_lineText (fun line hline ↦ h.newline_not_mem_linesOf hline) page

theorem decides_forM_checkRow (budget : Value) (columns : Int) {isFirst : Bool} (goesOn : Bool)
    {page : Nat} (hpage : isFirst = true ↔ page = 0) {start stop : Int} (hstart : 0 ≤ start)
    (hle : start ≤ stop) (hstop : stop ≤ d.canvas.width) :
    Decides ((d.linesOf isFirst goesOn start stop).forM
      (checkRow budget columns d.labelWidth page goesOn)) () (stop - start ≤ columns) := by
  refine (Decides.forM fun line hline ↦
    h.decides_checkRow budget columns hpage hstart hle hstop hline).of_iff ?_
  refine ⟨fun hall ↦ ?_, fun hfits _ _ ↦ hfits⟩
  have hne : d.linesOf isFirst goesOn start stop ≠ [] := by
    rw [← List.length_pos_iff, h.isRegular.length_linesOf, Canvas.height]
    omega
  obtain ⟨line, hline⟩ := List.exists_mem_of_ne_nil _ hne
  exact hall line hline

/-- **Pages are checked** one after the other. -/
theorem decides_checkFrom (budget : Value) (columns : Int) {blocks : List (List Int)} :
    ∀ {isFirst : Bool} {page : Nat} {start : Int}, (isFirst = true ↔ page = 0) → 0 ≤ start →
      Ascends d.canvas.width isFirst start (blockEnds start blocks) →
      Decides (checkFrom budget columns d.labelWidth d.canvas.height page
          ((d.linesFrom isFirst start (blockEnds start blocks)).map lineText)) ()
        (∀ block ∈ blocks, totalWidth block ≤ columns) := by
  induction blocks with
  | nil =>
    intro isFirst page start _ _ _
    exact .pass fun block hblock ↦ absurd hblock List.not_mem_nil
  | cons block blocks ih =>
    rintro isFirst page start hpage hstart ⟨hstop, hrest⟩
    have hle := hrest.start_le
    have hgoesOn : (!((d.linesFrom false (start + totalWidth block)
        (blockEnds (start + totalWidth block) blocks)).map lineText).isEmpty) =
          !(blockEnds (start + totalWidth block) blocks).isEmpty := by
      cases blocks <;> rfl
    have hfirst := h.decides_forM_checkRow budget columns
      (!(blockEnds (start + totalWidth block) blocks).isEmpty) hpage hstart (by omega) hle
    have hnext : false = true ↔ page + 1 = 0 := by simp
    rw [blockEnds, linesFrom, List.map_cons, checkFrom, hgoesOn, h.rowsOf_linesOf]
    refine (hfirst.bind fun _ ↦ ih hnext (by omega) hrest).of_iff ?_
    rw [List.forall_mem_cons, Int.add_comm start, Int.add_sub_cancel]

/-- **The check of pages decides whether all layers are within the budget.** Labels and marks are
not counted. -/
theorem decides_checkPages {count : Nat} (hlabels : d.rowLabels = wireLabels count)
    (hcount : d.canvas.wires = count) (hpos : 0 < count) {b : PageBudget}
    (hcolumns : b.columns ≤ maxColumns) {pages : List (List Char)}
    (hpages : d.pages b = .ok pages) :
    Decides (checkPages (joinPages b.columns pages) (.int count) (.int b.columns)) ()
      (∀ width ∈ d.layerWidths, width ≤ b.columns) := by
  obtain ⟨first, rest, hblocks, hdiv⟩ := b.exists_isDivision d.layerWidths d.labelWidth
  have hwidths : ∀ w ∈ d.layerWidths, 0 ≤ w := fun w hw ↦ Int.le_of_lt (h.widths_pos w hw)
  have hsplit := (h.of_pages_eq hpages).1
  have hlines := h.isRegular.eq_of_pages_eq hpages
  rw [b.cuts_eq] at hlines
  have hascends := b.ascends_cuts h.widths_pos d.labelWidth
  rw [h.totalWidth_eq, b.cuts_eq] at hascends
  have hfirst : true = true ↔ 0 = 0 := iff_of_true rfl rfl
  have hcheck := h.decides_checkFrom (.int b.columns) b.columns hfirst (Int.le_refl 0) hascends
  have hcolumnsOf : columnsOf (.int b.columns) = .ok (b.columns : Int) := by
    simp only [columnsOf, Value.toInt_int, Room.check_natCast maxColumns_le, if_pos hcolumns,
      bind, Except.bind]
  have hheight : 2 * count + 1 = d.canvas.height := by
    rw [← hcount]
    rfl
  have heq : checkPages (joinPages b.columns pages) (.int count) (.int b.columns) =
      checkFrom (.int b.columns) b.columns d.labelWidth d.canvas.height 0 pages := by
    simp only [checkPages, hcolumnsOf, Value.toInt_int, labelWidth_eq hlabels hpos, bind,
      Except.bind, Int.toNat_natCast, pagesOf_eq_split, hsplit, hheight]
    rfl
  rw [heq, hlines]
  rw [hblocks] at hcheck ⊢
  exact hcheck.of_iff (hdiv.forall_totalWidth_le_iff hwidths)

end Diagram.IsReadable

end WireDiagram
