import WireDiagram.Draft.Agreement.Drawing
import WireDiagram.Proofs.Arrangement
import WireDiagram.Proofs.Decoding

/-!
# Every trace can be drawn

Each stage looks something up that need not be there: packing the wires of a span in its table and
a layer among those that it has made, placement the members of layers among operators that must not
have a column yet, drawing the rows of wires and the cells that it writes to. None of these look-ups
ever misses (`Trace.IsSafe`), whatever the instructions are.

## What is left to fail

There may be no room for the canvas or for the line between two pages (`Trace.HasRoom`). Then a
trace with instructions is refused, for the first of the things that there is no room for; nothing
else is refused (`Trace.isSafe_draw`).
-/

namespace WireDiagram

/-! ## Packing -/

/-- Whether packing finds what it looks up for a span: the wires of the span in its table, and a
layer that is there or the next new one. -/
structure Packing.Admits (p : Packing) (span : Span) (wires : List Nat) : Prop where
  /-- The wires of the span have entries, counted from the start. -/
  within : span.Within p.free.length
  /-- The entries are found. -/
  places_eq : p.places span = .ok wires
  /-- They are those of the span. -/
  mem_wires_iff : ∀ w : Nat, w ∈ wires ↔ span.low ≤ (w : Int) ∧ (w : Int) ≤ span.high
  /-- The layer is not beyond the next new one. -/
  earliest_le : p.earliest wires ≤ p.layers.length

theorem Packing.Tracks.exists_admits {p : Packing} {count : Nat} {slots : List Slot}
    (h : p.Tracks count slots) {span : Span} (hspan : span.Within count) :
    ∃ wires, p.Admits span wires := by
  obtain ⟨wires, hindices, hwires⟩ := Span.exists_indices hspan
  refine ⟨wires, ?_, ?_, hwires, ?_⟩
  · rwa [h.length_free]
  · rw [places, h.length_free, hindices]
  · rw [h.earliest_eq hspan hwires, h.layers_eq, Slot.length_layers]
    exact Slot.levelAfter_le_height slots span

/-! ## Drawing -/

/-- Whether a canvas has everything that an operator draws on, and what is on the canvas then. -/
structure Canvas.Admits (c : Canvas) (op : Operator) (drawn : Canvas) : Prop where
  /-- The operator has been placed. -/
  exists_column : ∃ left, op.column = .ok left
  /-- The wires of the operator have rows. -/
  checkedRow_eq : ∀ wire ∈ op.wires, checkedRow c.wires wire = .ok (wireRow wire)
  /-- No look-up ends the drawing early. -/
  fault?_eq : (op.sketch c.wires).fault? = none
  /-- Every cell that is written to is on the canvas. -/
  inside : ∀ s ∈ (op.sketch c.wires).strokes, c.Inside s.row s.col
  /-- The operator is drawn. -/
  draw_eq : c.draw op = (drawn, none)
  /-- It is also drawn statement by statement, if its wires are written as numbers. -/
  draft_eq : op.glyphs = [] →
    (OperatorDraft.ofOperator op).draw.on (.ofCanvas c) = (.ofCanvas drawn, none)

/-! ## Pages -/

namespace Diagram

variable {d : Diagram}

theorem exists_pagesFrom (h : d.canvas.height ≤ d.rowLabels.length) (stops : List Int) :
    ∀ (isFirst : Bool) (start : Int), ∃ pages, d.pagesFrom isFirst start stops = .ok pages := by
  have hpage : ∀ isFirst goesOn start stop,
      ∃ page, d.page isFirst goesOn start stop = .ok page := by
    intro isFirst goesOn start stop
    rw [page, prefixes, if_neg (Nat.not_lt.mpr h)]
    cases isFirst
    · exact ⟨_, rfl⟩
    · exact ⟨_, rfl⟩
  induction stops with
  | nil => exact fun _ _ ↦ ⟨[], rfl⟩
  | cons stop stops ih =>
    intro isFirst start
    obtain ⟨first, hfirst⟩ := hpage isFirst (!stops.isEmpty) start stop
    obtain ⟨rest, hrest⟩ := ih false stop
    refine ⟨first :: rest, ?_⟩
    rw [pagesFrom, hfirst, hrest]
    rfl

end Diagram

/-! ## Traces -/

namespace Trace

/-- Whether every look-up on the way from a trace to its picture finds what it looks for. -/
structure IsSafe (t : Trace) (layers : List Layer) (placed : List Operator) (total : Int)
    (drawn : Canvas) : Prop where
  /-- Every operator is admitted by the packing of those before it. -/
  exists_packing : ∀ (j : Nat) (op : Operator), t.operators[j]? = some op →
    ∃ p span wires, (Packing.start t.wireCount).addAll 0 (t.operators.take j) = .ok p ∧
      op.span? = some span ∧ p.Admits span wires
  /-- All operators are packed. -/
  packLayers_eq : packLayers t.operators t.wireCount = .ok layers
  /-- Operators have no column before they are placed. -/
  column?_eq : ∀ op ∈ t.operators, op.column? = none
  /-- Every operator is a member of a layer, and it is one once. -/
  members_perm : (layers.flatMap Layer.members).Perm
    ((List.range t.operators.length).map Int.ofNat)
  /-- All members are placed. -/
  ofLayers_eq : Placement.ofLayers layers t.operators = ⟨placed, .ok total⟩
  /-- The canvas has the columns of all layers. -/
  total_eq : 0 ≤ total ∧ total = totalWidth (layers.map Layer.width)
  /-- Every operator is admitted by the canvas on which those before it have been drawn. -/
  exists_canvas : ∀ (j : Nat) (op : Operator), placed[j]? = some op →
    ∃ c c', (Canvas.fresh t.wireCount total.toNat).drawAll (placed.take j) = .ok c ∧
      (c.wires = t.wireCount ∧ (c.width : Int) = total) ∧ c.Admits op c'
  /-- All operators are drawn. -/
  drawAll_eq : (Canvas.fresh t.wireCount total.toNat).drawAll placed = .ok drawn
  /-- Where there is room for the canvas, this is how the diagram is made. -/
  ofTrace_eq : t.HasCanvas →
    Diagram.ofTrace t = .ok ⟨drawn, layers, placed, wireLabels t.wireCount⟩

variable {t : Trace}

theorem exists_packing {j : Nat} {op : Operator} (hop : t.operators[j]? = some op) :
    ∃ p span wires, (Packing.start t.wireCount).addAll 0 (t.operators.take j) = .ok p ∧
      op.span? = some span ∧ p.Admits span wires := by
  have hspans := t.exists_span_operators
  obtain ⟨span, hspan, hwithin⟩ := hspans op (List.mem_of_getElem? hop)
  obtain ⟨p, hp, htracks⟩ := (Packing.tracks_start t.wireCount).addAll
    fun op' (hop' : op' ∈ t.operators.take j) ↦ hspans op' (List.mem_of_mem_take hop')
  obtain ⟨wires, hwires⟩ := htracks.exists_admits hwithin
  exact ⟨p, span, wires, hp, hspan, hwires⟩

theorem checkedRow_placed {op : Operator} (hop : op ∈ t.placed) :
    ∀ wire ∈ op.wires, checkedRow t.wireCount wire = .ok (wireRow wire) := by
  obtain ⟨i, hi, left, rfl⟩ := exists_instruction hop
  intro wire hwire
  obtain ⟨w, hw, rfl⟩ := List.mem_map.mp hwire
  exact checkedRow_of_lt (t.wires_lt i hi w (Instruction.mem_wires_operator_iff.mp hw))

theorem exists_canvas {j : Nat} {op : Operator} (hop : t.placed[j]? = some op) :
    ∃ c c', (Canvas.fresh t.wireCount t.width).drawAll (t.placed.take j) = .ok c ∧
      (c.wires = t.wireCount ∧ c.width = t.width) ∧ c.Admits op c' := by
  have hmem := List.mem_of_getElem? hop
  obtain ⟨c, hdraw, hc⟩ := Canvas.exists_drawAll (Canvas.allSingle_fresh t.wireCount t.width) rfl
    fun op' (hop' : op' ∈ t.placed.take j) ↦ t.fits_placed op' (List.mem_of_mem_take hop')
  -- The operator fits the fresh canvas, and drawing on it does not change its size.
  obtain ⟨hfault, hfits⟩ := hc.fits_of_mem t.fits_placed hmem
  have hwires : c.wires = t.wireCount := hc.wires_eq
  rw [← hwires] at hfault hfits
  obtain ⟨c', hdraw', -⟩ := Canvas.exists_draw hc.allSingle hfault hfits
  refine ⟨c, c', hdraw, ⟨hwires, hc.width_eq⟩, ?_, ?_, hfault, fun s hs ↦ (hfits s hs).1,
    hdraw', ?_⟩
  · obtain ⟨i, -, left, rfl⟩ := exists_instruction hmem
    exact ⟨left, rfl⟩
  · rw [hwires]
    exact checkedRow_placed hmem
  · intro hplain
    rw [OperatorDraft.draw_ofOperator c hplain, hdraw']

theorem exists_draw {b : PageBudget} (h : t.HasRoom b) :
    ∃ text, t.draw (.int b.columns) = .ok text := by
  by_cases hne : t.instructions = []
  · refine ⟨emptyTraceText, ?_⟩
    rw [draw_of_eq_nil hne, b.ofValue_columns]
    rfl
  · obtain ⟨hcanvas, hcolumns⟩ := h.resolve_left hne
    obtain ⟨c, hc, hd⟩ := Trace.ofTrace_eq hcanvas
    have hlabels : (t.diagram c).canvas.height ≤ (t.diagram c).rowLabels.length :=
      Nat.le_of_eq (length_rowLabels_diagram hc).symm
    obtain ⟨pages, hpages⟩ := Diagram.exists_pagesFrom hlabels _ true 0
    exact ⟨_, draw_of_pages hne hd hpages hcolumns⟩

end Trace

end WireDiagram
