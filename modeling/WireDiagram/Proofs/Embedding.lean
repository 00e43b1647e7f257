import Mathlib.Data.List.Basic
import WireDiagram.Proofs.Composition
import WireDiagram.Proofs.Moving

/-!
# Traces inside larger ones

A trace with further wires above and below (`Trace.embed`) has the same diagram, further down: the
same layers, the same columns, and every row of the old canvas in the new one; the rows of the
further wires stay as they were (`Trace.exists_isEmbedding`).

## Drawing knows no rows

Everything that is drawn for an instruction is drawn relative to the rows of its wires, so an
instruction on wires further down draws the same strokes in the same order, each of them as many
rows further down (`Instruction.strokes_down`). The shape does not depend on rows at all. Two rows
belong to a wire, so a fresh cell that many rows further down is the same cell.

## The limit

Packing keeps a table with one entry for every wire, also for those that no instruction uses, and
there is a longest table. With more wires than that the larger trace has no diagram, and this is all
that may keep it from having one (`Trace.not_exists_isEmbedding_of_long_table`).
-/

namespace WireDiagram

/-! ## Strokes -/

/-- A stroke `k` rows further down. -/
def Stroke.down (k : Int) : Stroke → Stroke
  | .put row col x => .put (row + k) col x
  | .merge row col x => .merge (row + k) col x

@[simp] theorem Stroke.row_down (k : Int) (s : Stroke) : (s.down k).row = s.row + k := by
  cases s <;> rfl

@[simp] theorem Stroke.col_down (k : Int) (s : Stroke) : (s.down k).col = s.col := by
  cases s <;> rfl

theorem strokesAt_down (k row col : Int) (xs : List Stroke) :
    strokesAt (row + k) col (xs.map (Stroke.down k)) =
      (strokesAt row col xs).map (Stroke.down k) := by
  rw [strokesAt, List.filter_map, strokesAt]
  congr 1
  refine List.filter_congr fun s _ ↦ decide_eq_decide.mpr ?_
  rw [Stroke.row_down, Stroke.col_down]
  omega

/-- What strokes leave of a cell does not depend on the row it is in. -/
theorem Cell.inked_down (k : Int) {strokes : List Stroke} :
    ∀ x : Cell, x.inked (strokes.map (Stroke.down k)) = x.inked strokes := by
  induction strokes with
  | nil => exact fun x ↦ rfl
  | cons s strokes ih =>
    intro x
    cases s with
    | put row col y => exact ih y
    | merge row col y => exact ih (x.overlay y)

theorem Cell.fresh_down (above : Nat) (row : Int) :
    Cell.fresh (row + 2 * above) = Cell.fresh row := by
  have hparity : (row + 2 * above) % 2 = row % 2 := by omega
  rw [fresh, fresh, hparity]

/-! ## Lines and boxes -/

theorem map_add_intRange (k start stop : Int) :
    (intRange start stop).map (· + k) = intRange (start + k) (stop + k) := by
  have hlength : stop + k - (start + k) = stop - start := by omega
  rw [intRange, intRange, hlength, List.map_map]
  refine List.map_congr_left fun i _ ↦ ?_
  simp only [Function.comp]
  omega

section Down

variable (k : Int)

theorem map_down_lineStrokes (col start stop : Int) :
    (lineStrokes col start stop).map (Stroke.down k) = lineStrokes col (start + k) (stop + k) := by
  rw [lineStrokes, lineStrokes, ← map_add_intRange, List.map_map, List.map_map]
  rfl

theorem map_down_controlStrokes (col row top bottom : Int) :
    (controlStrokes col row top bottom).map (Stroke.down k) =
      controlStrokes col (row + k) (top + k) (bottom + k) := by
  have hnext : ∀ i : Int, i + 1 + k = i + k + 1 := fun i ↦ by omega
  rw [controlStrokes, controlStrokes, List.map_cons, ← hnext, ← hnext]
  by_cases habove : row < top
  · rw [if_pos habove, if_pos (by omega), map_down_lineStrokes]
    rfl
  · rw [if_neg habove, if_neg (by omega), map_down_lineStrokes]
    rfl

theorem map_down_swapStrokes (col row₀ row₁ : Int) :
    (swapStrokes col row₀ row₁).map (Stroke.down k) = swapStrokes col (row₀ + k) (row₁ + k) := by
  have hnext : row₀ + 1 + k = row₀ + k + 1 := by omega
  rw [swapStrokes, swapStrokes, List.map_append, List.map_cons, map_down_lineStrokes, hnext]
  rfl

namespace Box

/-- A box `k` rows further down. -/
def down (b : Box) : Box :=
  ⟨b.top + k, b.bottom + k, b.left, b.right⟩

variable (b : Box)

theorem map_down_walls : b.walls.map (Stroke.down k) = (b.down k).walls := by
  have hnext : b.top + 1 + k = b.top + k + 1 := by omega
  simp only [walls, down, ← hnext, ← map_add_intRange, List.map_flatMap, List.flatMap_map,
    List.map_cons, List.map_map]
  rfl

theorem map_down_frame : b.frame.map (Stroke.down k) = (b.down k).frame := by
  have hedges : b.edges.map (Stroke.down k) = (b.down k).edges := by
    rw [edges, edges, List.map_flatMap]
    rfl
  rw [frame, frame, List.map_append, List.map_append, hedges, map_down_walls]
  rfl

theorem map_down_attachStrokes (col row : Int) :
    (b.attachStrokes col row).map (Stroke.down k) = (b.down k).attachStrokes col (row + k) := by
  rw [attachStrokes, attachStrokes, List.map_append, map_down_controlStrokes]
  have hside : (b.down k).top = b.top + k := rfl
  by_cases habove : row < b.top
  · rw [if_pos habove, if_pos (by omega)]
    rfl
  · rw [if_neg habove, if_neg (by omega)]
    rfl

/-- The middle row of a box stays its middle row, since two rows belong to a wire. -/
theorem map_down_labelStrokes (above : Nat) (col : Int) (label : String) :
    (b.labelStrokes col label).map (Stroke.down (2 * above)) =
      (b.down (2 * above)).labelStrokes col label := by
  have hrow : b.labelRow + 2 * above = (b.down (2 * above)).labelRow := by
    simp only [labelRow, down]
    omega
  rw [labelStrokes, labelStrokes, ← hrow, List.map_map]
  rfl

end Box

end Down

/-! ## Wires -/

theorem wireRow_add (w above : Nat) :
    wireRow ((w + above : Nat) : Int) = wireRow w + 2 * above := by
  simp only [wireRow]
  omega

theorem min?_map_add {ws : List Nat} (hne : ws ≠ []) (above : Nat) :
    (ws.map (· + above)).min?.getD 0 = ws.min?.getD 0 + above := by
  obtain ⟨hmin, hle⟩ := min?_getD_mem hne
  refine min?_getD_eq (List.mem_map_of_mem hmin) (List.forall_mem_map.mpr fun w hw ↦ ?_)
  exact Nat.add_le_add_right (hle w hw) above

theorem max?_map_add {ws : List Nat} (hne : ws ≠ []) (above : Nat) :
    (ws.map (· + above)).max?.getD 0 = ws.max?.getD 0 + above := by
  obtain ⟨hmax, hle⟩ := max?_getD_mem hne
  refine max?_getD_eq (List.mem_map_of_mem hmax) (List.forall_mem_map.mpr fun w hw ↦ ?_)
  exact Nat.add_le_add_right (hle w hw) above

/-- The wires of a span, with `above` further wires above them. -/
def Span.shift (above : Nat) (s : Span) : Span :=
  ⟨s.low + above, s.high + above⟩

theorem Span.meets_shift (above : Nat) (s t : Span) :
    (s.shift above).meets (t.shift above) = s.meets t := by
  rw [Bool.eq_iff_iff, meets_iff, meets_iff]
  simp only [shift]
  omega

/-! ## Instructions -/

namespace Instruction

/-- An instruction on the wires of a diagram that has `above` further wires above them. -/
def shift (above : Nat) (i : Instruction) : Instruction where
  name := i.name
  targets := i.targets.map (· + above)
  controls := i.controls.map (· + above)
  params := i.params
  glyphs := []
  targets_ne_nil := mt List.map_eq_nil_iff.mp i.targets_ne_nil
  targets_nodup := List.pairwise_map.mpr (i.targets_nodup.imp fun hne heq ↦ hne (by omega))
  controls_nodup := List.pairwise_map.mpr (i.controls_nodup.imp fun hne heq ↦ hne (by omega))
  disjoint := by
    intro w hw hw'
    obtain ⟨v, hv, rfl⟩ := List.mem_map.mp hw
    obtain ⟨v', hv', heq⟩ := List.mem_map.mp hw'
    obtain rfl : v' = v := by omega
    exact i.disjoint v' hv hv'

variable (above : Nat) (i : Instruction)

theorem wires_shift : (i.shift above).wires = i.wires.map (· + above) :=
  List.map_append.symm

theorem controls_shift : (i.shift above).controls = i.controls.map (· + above) := rfl

theorem minWire_shift : (i.shift above).minWire = i.minWire + above := by
  rw [minWire, wires_shift, min?_map_add i.wires_ne_nil]
  rfl

theorem maxWire_shift : (i.shift above).maxWire = i.maxWire + above := by
  rw [maxWire, wires_shift, max?_map_add i.wires_ne_nil]
  rfl

theorem firstTarget_shift : (i.shift above).firstTarget = i.firstTarget + above :=
  min?_map_add i.targets_ne_nil above

theorem lastTarget_shift : (i.shift above).lastTarget = i.lastTarget + above :=
  max?_map_add i.targets_ne_nil above

theorem span_shift : (i.shift above).span = i.span.shift above := by
  rw [span, minWire_shift, maxWire_shift, Int.natCast_add, Int.natCast_add]
  rfl

theorem sortedTargets_shift :
    (i.shift above).sortedTargets = i.sortedTargets.map (· + above) := by
  refine (List.map_mergeSort fun v _ w _ ↦ ?_).symm
  simp only [Nat.add_le_add_iff_right]

theorem hasInnerControl_shift : (i.shift above).hasInnerControl = i.hasInnerControl := by
  simp only [hasInnerControl, shift, List.any_map, Function.comp_def, Nat.add_lt_add_iff_right]

theorem shape_shift : (i.shift above).shape = i.shape := by
  rw [shape, shape, hasInnerControl_shift, isSwap, isSwap]
  simp only [shift, List.length_map, label]

theorem controlCount_shift :
    (i.shift above).operator.controlCount = i.operator.controlCount := by
  simp only [operator, shift, List.length_map]

theorem width_shift : (i.shift above).operator.width = i.operator.width := by
  rw [Operator.width, Operator.width, shape_operator, shape_operator, shape_shift,
    controlCount_shift]

theorem boxAround_shift (left : Int) (low high : Nat) :
    (i.shift above).boxAround left (low + above) (high + above) =
      (i.boxAround left low high).down (2 * above) := by
  rw [boxAround, boxAround, wireRow_add, wireRow_add, width_shift]
  simp only [Box.down, Box.mk.injEq, and_true]
  omega

/-! ### Strokes -/

/-- Targets are marked on their wires, wherever these are. -/
theorem map_down_targetMarks (b : Box) (marked : Bool) :
    (b.targetMarks marked i.operator.targets).map (Stroke.down (2 * above)) =
      (b.down (2 * above)).targetMarks marked (i.shift above).operator.targets := by
  rw [targets_operator, targets_operator, sortedTargets_shift, Box.targetMarks, Box.targetMarks,
    List.map_flatMap, List.flatMap_map, List.flatMap_map, List.flatMap_map]
  refine List.flatMap_congr fun w _ ↦ ?_
  simp only [Int.ofNat_eq_natCast, wireRow_add]
  cases marked <;> rfl

/-- Controls inside a box are drawn on their wires, wherever these are. -/
theorem map_down_controlMarks (b : Box) :
    (b.controlMarks i.operator.controls).map (Stroke.down (2 * above)) =
      (b.down (2 * above)).controlMarks (i.shift above).operator.controls := by
  rw [controls_operator, controls_operator, controls_shift, Box.controlMarks, Box.controlMarks,
    List.map_flatMap, List.flatMap_map, List.flatMap_map, List.flatMap_map]
  refine List.flatMap_congr fun w _ ↦ ?_
  simp only [Int.ofNat_eq_natCast, wireRow_add]
  rfl

/-- What is drawn for each control outside is drawn in its row, wherever this is. -/
theorem map_down_flatMap_controls {f g : Int → List Stroke}
    (h : ∀ row, (f row).map (Stroke.down (2 * above)) = g (row + 2 * above)) :
    (i.controls.flatMap fun w : Nat ↦ f (wireRow w)).map (Stroke.down (2 * above)) =
      (i.shift above).controls.flatMap fun w : Nat ↦ g (wireRow w) := by
  rw [controls_shift, List.map_flatMap, List.flatMap_map]
  refine List.flatMap_congr fun w _ ↦ ?_
  rw [h, wireRow_add]

/-- A box with its controls inside. -/
theorem map_down_plainBoxStrokes (left : Int) (label : String) :
    (i.plainBoxStrokes left label).map (Stroke.down (2 * above)) =
      (i.shift above).plainBoxStrokes left label := by
  simp only [plainBoxStrokes, minWire_shift, maxWire_shift, boxAround_shift, controlCount_shift,
    List.map_append, Box.map_down_frame, map_down_targetMarks, map_down_controlMarks,
    Box.map_down_labelStrokes]
  rfl

/-- A box with its controls outside. -/
theorem map_down_controlledBoxStrokes (left : Int) (label : String) :
    (i.controlledBoxStrokes left label).map (Stroke.down (2 * above)) =
      (i.shift above).controlledBoxStrokes left label := by
  simp only [controlledBoxStrokes, firstTarget_shift, lastTarget_shift, boxAround_shift,
    controlCount_shift, width_shift, List.map_append, Box.map_down_frame, map_down_targetMarks,
    Box.map_down_labelStrokes,
    i.map_down_flatMap_controls above fun row ↦ Box.map_down_attachStrokes _ _ _ row]
  rfl

/-- A swap. -/
theorem map_down_swapStrokesOf (left : Int) (first last : Nat) :
    (i.swapStrokesOf left first last).map (Stroke.down (2 * above)) =
      (i.shift above).swapStrokesOf left (first + above) (last + above) := by
  have hcontrols := i.map_down_flatMap_controls above
    (g := fun row ↦ controlStrokes (left + 1) row (wireRow first + 2 * above)
      (wireRow last + 2 * above)) fun row ↦ map_down_controlStrokes _ _ row _ _
  rw [swapStrokesOf, swapStrokesOf, List.map_append, map_down_swapStrokes, wireRow_add, wireRow_add,
    hcontrols]

variable {i} {count count' : Nat}

theorem wires_shift_lt (h : ∀ w ∈ i.wires, w < count) (hcount : count + above ≤ count') :
    ∀ w ∈ (i.shift above).wires, w < count' := by
  intro w hw
  rw [wires_shift] at hw
  obtain ⟨v, hv, rfl⟩ := List.mem_map.mp hw
  have := h v hv
  omega

/-- **An instruction on wires further down draws the same, further down.** -/
theorem strokes_down (h : ∀ w ∈ i.wires, w < count) (hcount : count + above ≤ count')
    (left : Int) :
    ((i.shift above).operator.placedAt left).strokes count' =
      ((i.operator.placedAt left).strokes count).map (Stroke.down (2 * above)) := by
  have h' := wires_shift_lt above h hcount
  cases hshape : i.shape with
  | plainBox label =>
    rw [strokes_plainBox h hshape, strokes_plainBox h' ((shape_shift above i).trans hshape)]
    exact (map_down_plainBoxStrokes above i left label).symm
  | controlledBox label =>
    rw [strokes_controlledBox h hshape,
      strokes_controlledBox h' ((shape_shift above i).trans hshape)]
    exact (map_down_controlledBoxStrokes above i left label).symm
  | swap =>
    obtain ⟨first, last, heq, -⟩ := exists_targets_of_isSwap (isSwap_of_shape hshape)
    have heq' : (i.shift above).sortedTargets = [first + above, last + above] := by
      rw [sortedTargets_shift, heq]
      rfl
    rw [strokes_swap h hshape heq, strokes_swap h' ((shape_shift above i).trans hshape) heq']
    exact (map_down_swapStrokesOf above i left first last).symm

end Instruction

/-! ## Traces -/

namespace Trace

/-- A trace with `above` further wires above its own and `below` further ones below them. -/
def embed (t : Trace) (above below : Nat) : Trace where
  wireCount := t.wireCount + above + below
  instructions := t.instructions.map (Instruction.shift above)
  wires_lt := by
    intro i hi
    obtain ⟨j, hj, rfl⟩ := List.mem_map.mp hi
    exact Instruction.wires_shift_lt above (t.wires_lt j hj) (Nat.le_add_right _ below)

variable {t : Trace} {above below : Nat}

theorem moves_embed (t : Trace) (above below : Nat) :
    t.Moves (t.embed above below) (Span.shift above) (Instruction.shift above) where
  meets_eq := Span.meets_shift above
  instructions_eq := rfl
  span_eq i _ := Instruction.span_shift above i
  width_eq i _ := Instruction.width_shift above i

/-- The strokes of all operators, as many rows further down as there are rows of further wires. -/
theorem strokes_embed (t : Trace) (above below : Nat) :
    ((t.embed above below).placed.flatMap fun op ↦ op.strokes (t.wireCount + above + below)) =
      (t.placed.flatMap fun op ↦ op.strokes t.wireCount).map (Stroke.down (2 * above)) := by
  rw [placed_eq_map t, (t.moves_embed above below).placed_eq, List.flatMap_map, List.flatMap_map,
    List.map_flatMap]
  refine List.flatMap_congr fun e he ↦ ?_
  exact Instruction.strokes_down above (t.wires_lt e.2 (mem_instructions_of_mem_entries he))
    (Nat.le_add_right _ below) _

/-- No stroke is above the first row of a canvas or below its last one. -/
theorem strokesAt_placed_eq_nil {row : Int} (h : row < 0 ∨ 2 * (t.wireCount : Int) < row)
    (col : Int) : strokesAt row col (t.placed.flatMap fun op ↦ op.strokes t.wireCount) = [] := by
  refine strokesAt_eq_nil fun s hs hat ↦ ?_
  obtain ⟨op, hop, hs⟩ := List.mem_flatMap.mp hs
  have hinside : (0 ≤ s.row ∧ s.row < (2 * t.wireCount + 1 : Nat)) ∧
      0 ≤ s.col ∧ s.col < (t.width : Int) := ((t.fits_placed op hop).2 s hs).1
  omega

section Draws

variable {c c' : Canvas} (hc : t.Draws c) (hc' : (t.embed above below).Draws c')

include hc'

/-- **A cell of the larger canvas holds what the old strokes leave of it**, so many rows up. -/
theorem cell?_embed (row col : Int) :
    c'.cell? (row + 2 * above) col =
      ((Canvas.fresh (t.wireCount + above + below) t.width).cell? (row + 2 * above) col).map
        fun x ↦ x.inked
          (strokesAt row col (t.placed.flatMap fun op ↦ op.strokes t.wireCount)) := by
  rw [Draws, (t.moves_embed above below).columns_eq] at hc'
  refine (hc'.cell?_eq (row + 2 * above) col).trans (congrArg (Option.map · _) (funext fun x ↦ ?_))
  show x.inked (strokesAt _ _ ((t.embed above below).placed.flatMap fun op ↦
    op.strokes (t.wireCount + above + below))) = _
  rw [strokes_embed, strokesAt_down, Cell.inked_down]

include hc in
/-- The rows of the old canvas are in the larger one. -/
theorem cell?_embed_within {row : Int} (hrow : 0 ≤ row ∧ row ≤ 2 * (t.wireCount : Int))
    (col : Int) : c'.cell? (row + 2 * above) col = c.cell? row col := by
  have hfresh : (Canvas.fresh (t.wireCount + above + below) t.width).cell? (row + 2 * above) col =
      (Canvas.fresh t.wireCount t.width).cell? row col := by
    have hinside : (Canvas.fresh (t.wireCount + above + below) t.width).Inside (row + 2 * above)
        col ↔ (Canvas.fresh t.wireCount t.width).Inside row col := by
      refine and_congr ?_ Iff.rfl
      show 0 ≤ row + 2 * (above : Int) ∧
        row + 2 * (above : Int) < (2 * (t.wireCount + above + below) + 1 : Nat) ↔
          0 ≤ row ∧ row < (2 * t.wireCount + 1 : Nat)
      omega
    by_cases h : (Canvas.fresh t.wireCount t.width).Inside row col
    · rw [Canvas.cell?_fresh_of_inside h, Canvas.cell?_fresh_of_inside (hinside.mpr h),
        Cell.fresh_down]
    · exact (Grid.cell?_of_not_inside (mt hinside.mp h)).trans (Grid.cell?_of_not_inside h).symm
  rw [cell?_embed hc', hc.cell?_eq, hfresh]

/-- All other rows are as before anything was drawn. -/
theorem cell?_embed_beyond {row : Int}
    (hrow : row < 2 * (above : Int) ∨ 2 * ((above : Int) + t.wireCount) < row) (col : Int) :
    c'.cell? row col = (Canvas.fresh c'.wires c'.width).cell? row col := by
  have hsize : Canvas.fresh c'.wires c'.width =
      Canvas.fresh (t.wireCount + above + below) t.width := by
    rw [hc'.wires_eq, hc'.width_eq, ← (t.moves_embed above below).columns_eq]
    rfl
  obtain ⟨up, rfl⟩ : ∃ up, row = up + 2 * (above : Int) := ⟨row - 2 * above, by omega⟩
  rw [cell?_embed hc', strokesAt_placed_eq_nil (by omega), hsize]
  exact congrFun Option.map_id _

end Draws

end Trace

/-- Whether a diagram is another one with further wires above and below. -/
structure Diagram.IsEmbedding (d' d : Diagram) (above below : Nat) : Prop where
  /-- The further wires are there. -/
  wires_eq : d'.canvas.wires = d.canvas.wires + above + below
  /-- The canvases are equally wide. -/
  width_eq : d'.canvas.width = d.canvas.width
  /-- The layers have the same members and widths. -/
  layers_eq : d'.layers = d.layers
  /-- Every operator has columns, and its counterpart has the same. -/
  exists_columns : ∃ columns : List (Int × Int × Int),
    d.operators.map Operator.columns = columns.map Except.ok ∧
      d'.operators.map Operator.columns = columns.map Except.ok
  /-- Each row of the old canvas is in the new one, below two rows for every wire above. -/
  cell?_within : ∀ row col : Int, 0 ≤ row ∧ row ≤ 2 * d.canvas.wires →
    d'.canvas.cell? (row + 2 * above) col = d.canvas.cell? row col
  /-- Every other row is as on a canvas on which nothing has been drawn. -/
  cell?_beyond : ∀ row col : Int, row < 2 * above ∨ 2 * (above + d.canvas.wires) < row →
    d'.canvas.cell? row col = (Canvas.fresh d'.canvas.wires d'.canvas.width).cell? row col

namespace Trace

/-- Where there is a canvas for the larger trace, there is one for the smaller. -/
theorem HasCanvas.of_embed {t : Trace} {above below : Nat} (h : (t.embed above below).HasCanvas) :
    t.HasCanvas := by
  have hle : (2 * (t.wireCount + above + below) + 1) * max (t.embed above below).width 1 ≤
      Canvas.maxCells := hasCanvas_iff.mp h
  rw [(t.moves_embed above below).columns_eq] at hle
  exact hasCanvas_iff.mpr (Nat.le_trans (Nat.mul_le_mul_right _ (by omega)) hle)

/-- **A trace inside a larger one has its picture inside the larger one.** The larger one has no
diagram if there is no room for its canvas. -/
theorem exists_isEmbedding (t : Trace) (above below : Nat) :
    ((t.embed above below).HasCanvas ∧ ∃ d d', Diagram.ofTrace t = .ok d ∧
        Diagram.ofTrace (t.embed above below) = .ok d' ∧ d.canvas.wires = t.wireCount ∧
        t.Places d.operators ∧ (t.embed above below).Places d'.operators ∧
        d'.IsEmbedding d above below) ∨
      (¬(t.embed above below).HasCanvas ∧
        Diagram.ofTrace (t.embed above below) = .error (t.embed above below).canvasRefusal) := by
  by_cases hcanvas : (t.embed above below).HasCanvas
  · have hmoves := t.moves_embed above below
    obtain ⟨c, hc, hd⟩ := ofTrace_eq hcanvas.of_embed
    obtain ⟨c', hc', hd'⟩ := ofTrace_eq hcanvas
    have hwires : c.wires = t.wireCount := hc.wires_eq
    refine Or.inl ⟨hcanvas, _, _, hd, hd', hwires, t.places_placed,
      (t.embed above below).places_placed, ?_, ?_, hmoves.layers_eq, hmoves.exists_columns,
      fun row col hrow ↦ ?_, fun row col hrow ↦ cell?_embed_beyond hc' ?_ col⟩
    · show c'.wires = c.wires + above + below
      rw [hc'.wires_eq, hwires]
      rfl
    · exact hc'.width_eq.trans (hmoves.columns_eq.trans hc.width_eq.symm)
    · refine cell?_embed_within hc hc' ?_ col
      rwa [← hwires]
    · rwa [← hwires]
  · exact Or.inr ⟨hcanvas, ofTrace_of_not_hasCanvas hcanvas⟩

/-- A box between two wires: its rows are two rows further down, and the others show the wires. -/
theorem exists_isEmbedding_one_box : ∃ d',
    Diagram.ofTrace ((ofSingles 1 [("h", 0)]).embed 1 1) = .ok d' ∧
      [0, 1, 2, 3, 4, 5, 6].map (d'.canvas.cell? · 0) =
        [.blank, .glyph .wire, .glyph .topLeft, .glyph .leftWall, .glyph .bottomLeft, .glyph .wire,
          .blank].map some := by
  have hcases := exists_isEmbedding (ofSingles 1 [("h", 0)]) 1 1
  obtain ⟨-, d, d', hd, hd', hwires, -, -, h⟩ :=
    hcases.resolve_right fun h ↦ h.1 (by decide +kernel)
  have hrun : (Diagram.ofTrace (ofSingles 1 [("h", 0)])).toOption.map (fun d ↦
      (d.canvas.width, [0, 1, 2].map (d.canvas.cell? · 0))) =
      some (5, [.glyph .topLeft, .glyph .leftWall, .glyph .bottomLeft].map some) := by
    decide +kernel
  simp only [hd, Except.toOption, Option.map_some, Option.some.injEq, Prod.mk.injEq, List.map_cons,
    List.map_nil, List.cons.injEq, and_true] at hrun
  obtain ⟨hwidth, htop, hwall, hbottom⟩ := hrun
  have hone : d.canvas.wires = 1 := hwires
  have hwithin : ∀ row : Int, 0 ≤ row ∧ row ≤ 2 →
      d'.canvas.cell? (row + 2) 0 = d.canvas.cell? row 0 := fun row hrow ↦
    h.cell?_within row 0 (by omega)
  have hbeyond : ∀ row : Int, row < 2 ∨ 4 < row →
      d'.canvas.cell? row 0 = (Canvas.fresh 3 5).cell? row 0 := by
    intro row hrow
    rw [h.cell?_beyond row 0 (by omega), h.wires_eq, h.width_eq, hone, hwidth]
  refine ⟨d', hd', ?_⟩
  simp only [List.map_cons, List.map_nil, List.cons.injEq, and_true]
  exact ⟨hbeyond 0 (by decide), hbeyond 1 (by decide), (hwithin 0 (by decide)).trans htop,
    (hwithin 1 (by decide)).trans hwall, (hwithin 2 (by decide)).trans hbottom,
    hbeyond 5 (by decide), hbeyond 6 (by decide)⟩

/-- A trace on one wire has a diagram, but none if there are as many wires above it as the largest
length. -/
theorem not_exists_isEmbedding_of_long_table :
    (∃ d, Diagram.ofTrace (ofSingles 1 [("h", 0)]) = .ok d) ∧
      ¬∃ d d', Diagram.ofTrace (ofSingles 1 [("h", 0)]) = .ok d ∧
        Diagram.ofTrace ((ofSingles 1 [("h", 0)]).embed Position.maxLength 0) = .ok d' ∧
        d'.IsEmbedding d Position.maxLength 0 := by
  constructor
  · exact exists_ofTrace_iff.mpr (by decide +kernel)
  · rintro ⟨d, d', -, hd', -⟩
    have hrows := (exists_ofTrace_iff.mp ⟨d', hd'⟩).height_le
    have hfew := Room.maxEntries_le
    have hcount : ((ofSingles 1 [("h", 0)]).embed Position.maxLength 0).wireCount =
        1 + Position.maxLength := rfl
    omega

end Trace

end WireDiagram
