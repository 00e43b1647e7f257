import WireDiagram.Proofs.Composition
import WireDiagram.Proofs.Meetings
import WireDiagram.Proofs.Mirror
import WireDiagram.Proofs.Moving

/-!
# Traces upside down

A trace whose wires are counted from the last one (`Trace.mirror`) has the diagram upside down: the
same layers, the same columns, and every cell turned (`Trace.exists_isMirror`).

## Why nothing else changes

Packing sees of spans only which of them meet, and turning keeps that, so levels, widths and columns
stay (`Trace.moves_mirror`). An instruction keeps its shape, since a control between targets stays
between them. What it draws is the turned picture up to the order of strokes in different cells
(`Instruction.sameInk_strokes`): targets are drawn from top to bottom in both traces, and a line
that goes down to a box in one goes up to it in the other. Cells that meet in a merge join, and so
they may be turned before or after.
-/

namespace WireDiagram

/-! ## Spans -/

/-- The wires of a span, counted from the last wire of a diagram. -/
def Span.mirror (count : Nat) (s : Span) : Span :=
  ⟨count - 1 - s.high, count - 1 - s.low⟩

theorem Span.meets_mirror (count : Nat) (s t : Span) :
    (s.mirror count).meets (t.mirror count) = s.meets t := by
  rw [Bool.eq_iff_iff, meets_iff, meets_iff]
  simp only [mirror]
  omega

/-! ## Instructions -/

theorem nodup_map_mirrorWire (count : Nat) {wires : List Nat} (h : wires.Nodup) :
    (wires.map (mirrorWire count)).Nodup :=
  List.pairwise_map.mpr (h.imp fun hne heq ↦ hne (mirrorWire_injective count heq))

theorem min?_map_mirrorWire {count : Nat} {ws : List Nat} (hne : ws ≠ [])
    (hlt : ∀ w ∈ ws, w < count) :
    (ws.map (mirrorWire count)).min?.getD 0 = mirrorWire count (ws.max?.getD 0) := by
  obtain ⟨hmax, hle⟩ := max?_getD_mem hne
  refine min?_getD_eq (List.mem_map_of_mem hmax) (List.forall_mem_map.mpr fun w hw ↦ ?_)
  rw [mirrorWire_of_lt (hlt w hw), mirrorWire_of_lt (hlt _ hmax)]
  exact Nat.sub_le_sub_left (hle w hw) _

theorem max?_map_mirrorWire {count : Nat} {ws : List Nat} (hne : ws ≠ [])
    (hlt : ∀ w ∈ ws, w < count) :
    (ws.map (mirrorWire count)).max?.getD 0 = mirrorWire count (ws.min?.getD 0) := by
  obtain ⟨hmin, hge⟩ := min?_getD_mem hne
  refine max?_getD_eq (List.mem_map_of_mem hmin) (List.forall_mem_map.mpr fun w hw ↦ ?_)
  rw [mirrorWire_of_lt (hlt w hw), mirrorWire_of_lt (hlt _ hmin)]
  exact Nat.sub_le_sub_left (hge w hw) _

namespace Instruction

/-- An instruction on the wires of a diagram, counted from the last one. -/
def mirror (count : Nat) (i : Instruction) : Instruction where
  name := i.name
  targets := i.targets.map (mirrorWire count)
  controls := i.controls.map (mirrorWire count)
  params := i.params
  glyphs := []
  targets_ne_nil := mt List.map_eq_nil_iff.mp i.targets_ne_nil
  targets_nodup := nodup_map_mirrorWire count i.targets_nodup
  controls_nodup := nodup_map_mirrorWire count i.controls_nodup
  disjoint := by
    intro w hw hw'
    obtain ⟨v, hv, rfl⟩ := List.mem_map.mp hw
    obtain ⟨v', hv', heq⟩ := List.mem_map.mp hw'
    rw [mirrorWire_injective count heq] at hv'
    exact i.disjoint v hv hv'

variable {i : Instruction} {count : Nat}

theorem wires_mirror (count : Nat) (i : Instruction) :
    (i.mirror count).wires = i.wires.map (mirrorWire count) := by
  rw [wires, wires, List.map_append]
  rfl

theorem controls_mirror (count : Nat) (i : Instruction) :
    (i.mirror count).controls = i.controls.map (mirrorWire count) := rfl

theorem hasInnerControl_iff : i.hasInnerControl = true ↔
    ∃ c ∈ i.controls, (∃ t ∈ i.targets, t < c) ∧ ∃ t ∈ i.targets, c < t := by
  simp only [hasInnerControl, List.any_eq_true, Bool.and_eq_true, decide_eq_true_eq]

theorem sortedTargets_mirror_perm (count : Nat) (i : Instruction) :
    (i.mirror count).sortedTargets.Perm (i.sortedTargets.map (mirrorWire count)) :=
  (List.mergeSort_perm _ _).trans ((List.mergeSort_perm i.targets _).symm.map _)

section Turned

variable (h : ∀ w ∈ i.wires, w < count)

include h

theorem wires_mirror_lt : ∀ w ∈ (i.mirror count).wires, w < count := by
  intro w hw
  rw [wires_mirror] at hw
  obtain ⟨v, hv, rfl⟩ := List.mem_map.mp hw
  exact mirrorWire_lt (h v hv)

theorem lt_of_mem_targets : ∀ w ∈ i.targets, w < count :=
  fun w hw ↦ h w (mem_wires_of_mem_targets hw)

theorem lt_of_mem_controls : ∀ w ∈ i.controls, w < count :=
  fun w hw ↦ h w (mem_wires_of_mem_controls hw)

theorem minWire_mirror : (i.mirror count).minWire = mirrorWire count i.maxWire := by
  rw [minWire, wires_mirror, min?_map_mirrorWire i.wires_ne_nil h]
  rfl

theorem maxWire_mirror : (i.mirror count).maxWire = mirrorWire count i.minWire := by
  rw [maxWire, wires_mirror, max?_map_mirrorWire i.wires_ne_nil h]
  rfl

theorem firstTarget_mirror : (i.mirror count).firstTarget = mirrorWire count i.lastTarget :=
  min?_map_mirrorWire i.targets_ne_nil (lt_of_mem_targets h)

theorem lastTarget_mirror : (i.mirror count).lastTarget = mirrorWire count i.firstTarget :=
  max?_map_mirrorWire i.targets_ne_nil (lt_of_mem_targets h)

theorem span_mirror : (i.mirror count).span = i.span.mirror count := by
  have hmin := h _ i.minWire_mem.1
  have hmax := h _ i.maxWire_mem.1
  rw [span, span, minWire_mirror h, maxWire_mirror h, Span.mirror, mirrorWire_of_lt hmin,
    mirrorWire_of_lt hmax, Span.mk.injEq]
  simp only
  omega

theorem hasInnerControl_mirror : (i.mirror count).hasInnerControl = i.hasInnerControl := by
  have hlt : ∀ v ∈ i.wires, ∀ w ∈ i.wires, mirrorWire count v < mirrorWire count w ↔ w < v :=
    fun v hv w hw ↦ mirrorWire_lt_iff (h v hv) (h w hw)
  have htarget : ∀ {w}, w ∈ i.targets → w ∈ i.wires := mem_wires_of_mem_targets
  have hcontrol : ∀ {w}, w ∈ i.controls → w ∈ i.wires := mem_wires_of_mem_controls
  rw [Bool.eq_iff_iff, hasInnerControl_iff, hasInnerControl_iff]
  simp only [mirror, List.mem_map, exists_exists_and_eq_and]
  -- What lies above the control lies below the turned one.
  constructor
  · rintro ⟨c, hc, ⟨t, ht, htc⟩, u, hu, hcu⟩
    exact ⟨c, hc, ⟨u, hu, (hlt c (hcontrol hc) u (htarget hu)).mp hcu⟩, t, ht,
      (hlt t (htarget ht) c (hcontrol hc)).mp htc⟩
  · rintro ⟨c, hc, ⟨t, ht, htc⟩, u, hu, hcu⟩
    exact ⟨c, hc, ⟨u, hu, (hlt u (htarget hu) c (hcontrol hc)).mpr hcu⟩, t, ht,
      (hlt c (hcontrol hc) t (htarget ht)).mpr htc⟩

theorem shape_mirror : (i.mirror count).shape = i.shape := by
  rw [shape, shape, hasInnerControl_mirror h, isSwap, isSwap]
  simp only [mirror, List.length_map, label]

omit h in
theorem controlCount_mirror (count : Nat) (i : Instruction) :
    (i.mirror count).operator.controlCount = i.operator.controlCount := by
  simp only [operator, mirror, List.length_map]

theorem width_mirror : (i.mirror count).operator.width = i.operator.width := by
  rw [Operator.width, Operator.width, shape_operator, shape_operator, shape_mirror h,
    controlCount_mirror]

theorem boxAround_mirror {low high : Nat} (hlow : low < count) (hhigh : high < count) (left : Int) :
    (i.mirror count).boxAround left (mirrorWire count high) (mirrorWire count low) =
      (i.boxAround left low high).mirror count := by
  rw [boxAround, boxAround, wireRow_mirrorWire hlow, wireRow_mirrorWire hhigh, width_mirror h]
  simp only [Box.mirror, Box.mk.injEq, and_true]
  omega

/-! ### Strokes -/

/-- Targets are marked on their turned wires, from top to bottom again. -/
theorem sameInk_targets (b : Box) (marked : Bool) :
    SameInk ((b.targetMarks marked i.operator.targets).map (Stroke.mirror count))
      ((b.mirror count).targetMarks marked (i.mirror count).operator.targets) := by
  rw [targets_operator, targets_operator]
  refine Box.sameInk_targetMarks marked (sortedTargets_mirror_perm count i) ?_ fun w hw ↦ ?_
  · exact (List.mergeSort_perm i.targets _).nodup_iff.mpr i.targets_nodup
  · exact lt_of_mem_targets h w (mem_sortedTargets_iff.mp hw)

omit h in
theorem map_mirror_label (left col : Int) (low high : Nat) (label : String) :
    ((i.boxAround left low high).labelStrokes col label).map (Stroke.mirror count) =
      ((i.boxAround left low high).mirror count).labelStrokes col label := by
  refine Box.map_mirror_labelStrokes ?_ col label
  simp only [boxAround, wireRow]
  omega

theorem sameInk_plainBoxStrokes (left : Int) (label : String) :
    SameInk ((i.plainBoxStrokes left label).map (Stroke.mirror count))
      ((i.mirror count).plainBoxStrokes left label) := by
  have hmin := h _ i.minWire_mem.1
  have hmax := h _ i.maxWire_mem.1
  have hle : i.minWire ≤ i.maxWire := i.minWire_mem.2 _ i.maxWire_mem.1
  have hin := i.isIn_area i.minWire_mem.1 i.maxWire_mem.1 hle left
  simp only [plainBoxStrokes, minWire_mirror h, maxWire_mirror h, boxAround_mirror h hmin hmax,
    controlCount_mirror, controls_operator, List.map_append]
  refine (Box.sameInk_frame hin.top_lt_bottom).append (.append (.append ?_ ?_) (.of_eq ?_))
  · exact sameInk_targets h _ _
  · exact Box.sameInk_controlMarks i.controls_nodup (lt_of_mem_controls h)
  · exact map_mirror_label left _ i.minWire i.maxWire label

theorem sameInk_controlledBoxStrokes (hinner : i.hasInnerControl = false) (left : Int)
    (label : String) :
    SameInk ((i.controlledBoxStrokes left label).map (Stroke.mirror count))
      ((i.mirror count).controlledBoxStrokes left label) := by
  have hfirst := lt_of_mem_targets h _ i.firstTarget_mem.1
  have hlast := lt_of_mem_targets h _ i.lastTarget_mem.1
  have hle : i.firstTarget ≤ i.lastTarget := i.firstTarget_mem.2 _ i.lastTarget_mem.1
  have hin := i.isIn_area (mem_wires_of_mem_targets i.firstTarget_mem.1)
    (mem_wires_of_mem_targets i.lastTarget_mem.1) hle left
  simp only [controlledBoxStrokes, firstTarget_mirror h, lastTarget_mirror h,
    boxAround_mirror h hfirst hlast, controlCount_mirror, controls_mirror, width_mirror h,
    List.map_append, List.map_flatMap, List.flatMap_map]
  refine (Box.sameInk_frame hin.top_lt_bottom).append (.append (.append ?_ ?_) (.of_eq ?_))
  · exact sameInk_targets h _ _
  · refine SameInk.flatMap fun w hw ↦ ?_
    -- The box lies below the turned control if it lay above the control, and the other way round.
    have houter := outer_of_mem_controls hinner hw
    rw [wireRow_mirrorWire (lt_of_mem_controls h w hw)]
    refine Box.sameInk_attachStrokes (Int.le_of_lt hin.top_lt_bottom) ?_
    simp only [boxAround, wireRow]
    omega
  · exact map_mirror_label left _ i.firstTarget i.lastTarget label

theorem sameInk_swapStrokesOf (hinner : i.hasInnerControl = false) {first last : Nat}
    (heq : i.sortedTargets = [first, last]) (hlt : first < last) (left : Int) :
    SameInk ((i.swapStrokesOf left first last).map (Stroke.mirror count))
      ((i.mirror count).swapStrokesOf left (mirrorWire count last) (mirrorWire count first)) := by
  have hends := ends_of_sortedTargets heq hlt
  have hfirst : first < count := hends.1 ▸ lt_of_mem_targets h _ i.firstTarget_mem.1
  have hlast : last < count := hends.2 ▸ lt_of_mem_targets h _ i.lastTarget_mem.1
  have hrows : wireRow first < wireRow last := by
    simp only [wireRow]
    omega
  simp only [swapStrokesOf, controls_mirror, wireRow_mirrorWire hfirst, wireRow_mirrorWire hlast,
    List.map_append, List.map_flatMap, List.flatMap_map]
  refine (sameInk_swapStrokes hrows).append (SameInk.flatMap fun w hw ↦ ?_)
  have houter := outer_of_mem_controls hinner hw
  rw [wireRow_mirrorWire (lt_of_mem_controls h w hw)]
  refine sameInk_controlStrokes (Int.le_of_lt hrows) ?_
  simp only [wireRow]
  omega

/-- **A turned instruction draws the turned picture.** -/
theorem sameInk_strokes (left : Int) :
    SameInk (((i.operator.placedAt left).strokes count).map (Stroke.mirror count))
      (((i.mirror count).operator.placedAt left).strokes count) := by
  have h' := wires_mirror_lt h
  cases hshape : i.shape with
  | plainBox label =>
    rw [strokes_plainBox h hshape, strokes_plainBox h' ((shape_mirror h).trans hshape)]
    exact sameInk_plainBoxStrokes h left label
  | controlledBox label =>
    rw [strokes_controlledBox h hshape, strokes_controlledBox h' ((shape_mirror h).trans hshape)]
    exact sameInk_controlledBoxStrokes h (hasInnerControl_of_controlledBox hshape) left label
  | swap =>
    have hshape' := (shape_mirror h).trans hshape
    obtain ⟨first, last, heq, hlt⟩ := exists_targets_of_isSwap (isSwap_of_shape hshape)
    obtain ⟨first', last', heq', hlt'⟩ := exists_targets_of_isSwap (isSwap_of_shape hshape')
    obtain ⟨hfirst, hlast⟩ := ends_of_sortedTargets heq hlt
    obtain ⟨hfirst', hlast'⟩ := ends_of_sortedTargets heq' hlt'
    -- The two targets change places.
    rw [firstTarget_mirror h, hlast] at hfirst'
    rw [lastTarget_mirror h, hfirst] at hlast'
    rw [strokes_swap h hshape heq, strokes_swap h' hshape' heq', ← hfirst', ← hlast']
    exact sameInk_swapStrokesOf h (hasInnerControl_of_swap hshape) heq hlt left

end Turned

end Instruction

/-! ## Traces -/

namespace Trace

/-- A trace with its wires in the opposite order. -/
def mirror (t : Trace) : Trace where
  wireCount := t.wireCount
  instructions := t.instructions.map (Instruction.mirror t.wireCount)
  wires_lt := by
    intro i hi
    obtain ⟨j, hj, rfl⟩ := List.mem_map.mp hi
    exact Instruction.wires_mirror_lt (t.wires_lt j hj)

variable {t : Trace}

theorem moves_mirror (t : Trace) :
    t.Moves t.mirror (Span.mirror t.wireCount) (Instruction.mirror t.wireCount) where
  meets_eq := Span.meets_mirror t.wireCount
  instructions_eq := rfl
  span_eq i hi := Instruction.span_mirror (t.wires_lt i hi)
  width_eq i hi := Instruction.width_mirror (t.wires_lt i hi)

/-- The strokes of all turned operators come to the turned strokes. -/
theorem sameInk_placed (t : Trace) :
    SameInk ((t.placed.flatMap fun op ↦ op.strokes t.wireCount).map (Stroke.mirror t.wireCount))
      (t.mirror.placed.flatMap fun op ↦ op.strokes t.wireCount) := by
  rw [placed_eq_map, t.moves_mirror.placed_eq, List.flatMap_map, List.flatMap_map, List.map_flatMap]
  exact SameInk.flatMap fun e he ↦
    Instruction.sameInk_strokes (t.wires_lt e.2 (mem_instructions_of_mem_entries he)) _

/-- A canvas has as many rows below a row of it as above the turned one. -/
theorem inside_mirror_iff (wires width : Nat) (row col : Int) :
    (Canvas.fresh wires width).Inside (2 * wires - row) col ↔
      (Canvas.fresh wires width).Inside row col := by
  have hheight : ((2 * (Canvas.fresh wires width).wires + 1 : Nat) : Int) = 2 * wires + 1 := rfl
  rw [Canvas.Inside, Canvas.Inside, Grid.Inside, Grid.Inside, hheight]
  omega

/-- **A cell of the turned canvas is the turned cell.** -/
theorem cell?_mirror {c c' : Canvas} (hc : t.Draws c) (hc' : t.mirror.Draws c') (row col : Int) :
    c'.cell? (2 * t.wireCount - row) col = (c.cell? row col).map Cell.mirror := by
  rw [Draws, t.moves_mirror.columns_eq] at hc'
  have hmirror := inside_mirror_iff t.wireCount t.width row col
  by_cases hinside : (Canvas.fresh t.wireCount t.width).Inside row col
  · rw [cell?_of_inked hc' (hmirror.mpr hinside), cell?_of_inked hc hinside, Option.map_some]
    show some ((Cell.fresh _).inked (strokesAt _ _ (t.mirror.placed.flatMap fun op ↦
      op.strokes t.wireCount))) = _
    rw [← t.sameInk_placed, strokesAt_mirror, ← Cell.mirror_fresh,
      Cell.inked_mirror _ (t.joinsAll_placed row col)]
  · have hnone : (Canvas.fresh t.wireCount t.width).cell? row col = none :=
      Grid.cell?_of_not_inside hinside
    have hnone' : (Canvas.fresh t.mirror.wireCount t.width).cell? (2 * t.wireCount - row) col =
        none := Grid.cell?_of_not_inside (mt hmirror.mp hinside)
    rw [hc'.cell?_eq, hc.cell?_eq, hnone, hnone']
    rfl

end Trace

/-- Whether a diagram is another one upside down. -/
structure Diagram.IsMirror (d' d : Diagram) : Prop where
  /-- The diagrams have the same wires. -/
  wires_eq : d'.canvas.wires = d.canvas.wires
  /-- The canvases are equally wide. -/
  width_eq : d'.canvas.width = d.canvas.width
  /-- The layers have the same members and widths. -/
  layers_eq : d'.layers = d.layers
  /-- Every operator has columns, and its counterpart has the same. -/
  exists_columns : ∃ columns : List (Int × Int × Int),
    d.operators.map Operator.columns = columns.map Except.ok ∧
      d'.operators.map Operator.columns = columns.map Except.ok
  /-- The cells are turned cells, in the same columns and in the opposite order of rows. -/
  cell?_eq : ∀ row col, d'.canvas.cell? (2 * d.canvas.wires - row) col =
    (d.canvas.cell? row col).map Cell.mirror

namespace Trace

/-- **A trace upside down has the picture upside down.** Neither of the two has a diagram if there
is no room for a canvas. -/
theorem exists_isMirror (t : Trace) :
    (t.HasCanvas ∧ ∃ d d', Diagram.ofTrace t = .ok d ∧
        Diagram.ofTrace t.mirror = .ok d' ∧ d'.IsMirror d) ∨
      (¬t.HasCanvas ∧ Diagram.ofTrace t = .error t.canvasRefusal ∧
        Diagram.ofTrace t.mirror = .error t.canvasRefusal) := by
  have hmirror : t.mirror.HasCanvas ↔ t.HasCanvas :=
    hasCanvas_congr rfl (congrArg _ t.moves_mirror.layers_eq.symm)
  by_cases hcanvas : t.HasCanvas
  · obtain ⟨c, hc, hd⟩ := ofTrace_eq hcanvas
    obtain ⟨c', hc', hd'⟩ := ofTrace_eq (hmirror.mpr hcanvas)
    have hwires : c.wires = t.wireCount := hc.wires_eq
    refine Or.inl ⟨hcanvas, _, _, hd, hd', hc'.wires_eq.trans hwires.symm, ?_,
      t.moves_mirror.layers_eq, t.moves_mirror.exists_columns, fun row col ↦ ?_⟩
    · exact hc'.width_eq.trans (t.moves_mirror.columns_eq.trans hc.width_eq.symm)
    · show c'.cell? (2 * c.wires - row) col = _
      rw [hwires]
      exact cell?_mirror hc hc' row col
  · exact Or.inr ⟨hcanvas, ofTrace_of_not_hasCanvas hcanvas,
      ofTrace_of_not_hasCanvas (mt hmirror.mp hcanvas)⟩

end Trace

end WireDiagram
