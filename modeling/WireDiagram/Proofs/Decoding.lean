import WireDiagram.Proofs.Capacity
import WireDiagram.Proofs.Reading

/-!
# Texts of traces can be read back

The text of a trace is split into its pages, and these are read back to the rows of the canvas
(`Trace.Reads`), if no gate has a line feed in its name. All it takes is that there is room for the
text (`Trace.isDecodable_iff`), which includes the line between two pages also where a single page
does not need it.
-/

namespace WireDiagram

open Split

/-! ## Diagrams of traces are readable -/

theorem Canvas.exists_cell?_of_mem_rows {c : Canvas} {cells : List Cell} (hcells : cells ∈ c.rows)
    {x : Cell} (hx : x ∈ cells) : ∃ row col, c.cell? row col = some x := by
  obtain ⟨v, hv, rfl⟩ := List.mem_map.mp hcells
  obtain ⟨r, hr, rfl⟩ := List.getElem_of_mem hv
  obtain ⟨k, hk, rfl⟩ := List.getElem_of_mem hx
  rw [Vector.length_toList] at hr hk
  have hinside : c.Inside r k := ⟨⟨by omega, by omega⟩, by omega, by omega⟩
  refine ⟨r, k, ?_⟩
  rw [Canvas.cell?, Grid.cell?, dif_pos hinside]
  simp

theorem Canvas.isSingle_of_mem_rows {c : Canvas} (h : c.AllSingle) {cells : List Cell}
    (hcells : cells ∈ c.rows) : ∀ x ∈ cells, x.IsSingle := by
  intro x hx
  obtain ⟨row, col, hcell⟩ := exists_cell?_of_mem_rows hcells hx
  exact h row col x hcell

namespace Trace

variable {t : Trace} {c : Canvas}

theorem isRegular_diagram (hdraws : t.Draws c) : (t.diagram c).IsRegular where
  isSingle _ := Canvas.isSingle_of_mem_rows hdraws.allSingle
  length_labels := length_rowLabels_diagram hdraws
  widths_pos w hw := by
    obtain ⟨l, hl, rfl⟩ := List.mem_map.mp hw
    have := t.three_le_of_mem_layers hl
    omega
  totalWidth_eq := (width_diagram hdraws).symm

theorem isReadable_diagram (hdraws : t.Draws c) (hne : t.instructions ≠ [])
    (hnames : ∀ i ∈ t.instructions, '\n' ∉ i.name.toList) : (t.diagram c).IsReadable where
  isSingle := (isRegular_diagram hdraws).isSingle
  isLineFree cells hcells x hx := by
    obtain ⟨row, col, hcell⟩ := Canvas.exists_cell?_of_mem_rows hcells hx
    exact lacks_of_draws hdraws .newline hnames hcell
  length_labels := (isRegular_diagram hdraws).length_labels
  labels_lineFree _ hlabel := OnlyInNames.newline.not_mem_wireLabels hlabel
  labelWidth_pos := by
    have hpos := wireCount_pos hne
    have hmem : wireLabel 0 ∈ (t.diagram c).rowLabels :=
      List.mem_map.mpr ⟨1, List.mem_range.mpr (by omega), rfl⟩
    have hlength : 0 < (wireLabel 0).length := by decide
    exact Nat.lt_of_lt_of_le hlength (Diagram.length_le_labelWidth hmem)
  widths_pos := (isRegular_diagram hdraws).widths_pos
  totalWidth_eq := (isRegular_diagram hdraws).totalWidth_eq

/-! ## The text of a trace -/

/-- What a text and its pages say of a diagram. -/
structure Reads (t : Trace) (b : PageBudget) (d : Diagram) (pages : List (List Char))
    (text : String) : Prop where
  /-- The diagram is that of the trace. -/
  diagram_eq : Diagram.ofTrace t = .ok d
  /-- The text is that of the trace. -/
  text_eq : t.draw (.int b.columns) = .ok text
  /-- The pages are those of the diagram. -/
  pages_eq : d.pages b = .ok pages
  /-- The text is split into the pages. -/
  split_eq : split (banner b.columns) text.toList = pages
  /-- A page is made of lines of one length, one for every row. -/
  lines : ∀ page ∈ pages, page = lineText (pageLines page) ∧
    (pageLines page).length = 2 * t.wireCount + 1 ∧
      ∃ width, ∀ line ∈ pageLines page, '\n' ∉ line ∧ line.length = width
  /-- Every row of the canvas is read back. -/
  rows : ∀ r, r < 2 * t.wireCount + 1 →
    d.canvas.showRow r 0 none = .ok (decodeRow d.labelWidth r pages)

end Trace

end WireDiagram
