import WireDiagram.Proofs.Capacity
import WireDiagram.Proofs.Seams

/-!
# Composition

A diagram is put together from the pictures of its operators, each of them drawn alone
(`Trace.exists_isComposition`), and there is one operator for each instruction. A cell that lies in
no area is untouched, a cell that lies in one area is the one of that picture, and a cell that lies
in two is the merge of two pictures, in either order.
-/

namespace WireDiagram

theorem Operator.span?_of_area? {op : Operator} {a : Area} (h : op.area? = some a) :
    op.span? = some a.span := by
  unfold Operator.area? at h
  split at h
  · rename_i span left mid right hspan hcolumns
    rw [hspan, ← Option.some.inj h]
  · contradiction

namespace Diagram

/-- The canvas of a diagram with one operator alone on it, and the fault that drawing it ends in, if
there is one. -/
def solo (d : Diagram) (op : Operator) : Canvas × Option Fault :=
  (Canvas.fresh d.canvas.wires d.canvas.width).draw op

/-- How a cell of a diagram comes from the pictures of its operators. -/
inductive IsComposed (d : Diagram) (row col : Int) : Prop
  /-- A cell that lies in no area is as it was. -/
  | untouched (hops : coverers d.operators row col = [])
      (hcell : d.canvas.cell? row col = some (Cell.fresh row))
  /-- A cell that lies in one area is the one of this operator alone. -/
  | alone {op : Operator} {j : Nat} (hops : coverers d.operators row col = [(op, j)])
      (hcell : d.canvas.cell? row col = (d.solo op).1.cell? row col)
  /-- A cell that lies in two areas is between two operators of one layer that follow upon each
  other, and is the merge of the cells of either of them alone. -/
  | shared {op op' : Operator} {i j : Nat} {l : Layer} {s s' : Span} {wire : Int} {x y z : Cell}
      (hops : coverers d.operators row col = [(op, i), (op', j)])
      (hlayer : l ∈ d.layers ∧ (i : Int) ∈ l.members ∧ (j : Int) ∈ l.members)
      (hspan : op.span? = some s) (hspan' : op'.span? = some s')
      (hwire : s.high = wire ∧ s'.low = wire + 1 ∨ s'.high = wire ∧ s.low = wire + 1)
      (hrow : row = 2 * wire + 2)
      (hx : (d.solo op).1.cell? row col = some x)
      (hy : (d.solo op').1.cell? row col = some y)
      (hxy : x.merge y = .ok z) (hyx : y.merge x = .ok z)
      (hcell : d.canvas.cell? row col = some z)

end Diagram

namespace Trace

variable {t : Trace}

theorem exists_layer {op op' : Operator} {i j : Nat} {row col : Int}
    (hi : (op, i) ∈ coverers t.placed row col) (hj : (op', j) ∈ coverers t.placed row col) :
    ∃ l ∈ Slot.layers t.slots, (i : Int) ∈ l.members ∧ (j : Int) ∈ l.members := by
  obtain ⟨hop, hcovers⟩ := mem_coverers_iff.mp hi
  obtain ⟨hop', hcovers'⟩ := mem_coverers_iff.mp hj
  obtain ⟨s, hs, hsettled⟩ := exists_slot hop
  obtain ⟨s', hs', hsettled'⟩ := exists_slot hop'
  have hmem := List.mem_of_getElem? hs
  have hlevel := Slot.level_eq_of_covers hmem (List.mem_of_getElem? hs')
    (hsettled.covers_iff.mp hcovers) (hsettled'.covers_iff.mp hcovers')
  refine ⟨Slot.layer t.slots s.level, ?_, ?_, ?_⟩
  · exact List.mem_map_of_mem (List.mem_range.mpr (Slot.level_lt_height hmem))
  · exact List.mem_map_of_mem (Slot.mem_members_iff.mpr ⟨s, hs, rfl⟩)
  · exact List.mem_map_of_mem (Slot.mem_members_iff.mpr ⟨s', hs', hlevel.symm⟩)

variable {c : Canvas} {row col : Int}

/-- An operator alone draws without a fault, and leaves its strokes. -/
theorem exists_solo (hdraws : t.Draws c) {op : Operator} (h : op ∈ t.placed) :
    ∃ c', (t.diagram c).solo op = (c', none) ∧
      (Canvas.fresh t.wireCount t.width).Inked (op.strokes t.wireCount) c' := by
  have hcanvas : Canvas.fresh c.wires c.width = Canvas.fresh t.wireCount t.width := by
    rw [hdraws.wires_eq, hdraws.width_eq]
    rfl
  obtain ⟨a, ha⟩ := exists_isSettled h
  rw [Diagram.solo, canvas_diagram, hcanvas]
  exact Canvas.exists_draw (Canvas.allSingle_fresh _ _) ha.fault?_eq (ha.fits rfl rfl)

theorem cell?_of_inked {strokes : List Stroke} {wires width : Nat}
    (h : (Canvas.fresh wires width).Inked strokes c)
    (hinside : (Canvas.fresh wires width).Inside row col) :
    c.cell? row col = some ((Cell.fresh row).inked (strokesAt row col strokes)) := by
  rw [h.cell?_eq, Canvas.cell?_fresh_of_inside hinside, Option.map_some]

theorem cell?_solo (hdraws : t.Draws c)
    (hinside : (Canvas.fresh t.wireCount t.width).Inside row col) {op : Operator}
    (h : op ∈ t.placed) :
    ((t.diagram c).solo op).1.cell? row col =
      some ((Cell.fresh row).inked (strokesAt row col (op.strokes t.wireCount))) := by
  obtain ⟨c', hc', hinked⟩ := exists_solo hdraws h
  rw [hc']
  exact cell?_of_inked hinked hinside

theorem cell?_of_draws (hdraws : t.Draws c)
    (hinside : (Canvas.fresh t.wireCount t.width).Inside row col) :
    c.cell? row col = some ((Cell.fresh row).inked ((coverers t.placed row col).flatMap fun p ↦
      strokesAt row col (p.1.strokes t.wireCount))) := by
  rw [cell?_of_inked hdraws hinside,
    strokesAt_flatMap_strokes fun op hop ↦ Trace.exists_isSettled hop]

/-- **Between its edges an operator is alone**: a cell there holds what its own strokes leave. -/
theorem cell?_of_between_edges (hdraws : t.Draws c) {op : Operator} {a : Area} (h : op ∈ t.placed)
    (ha : op.area? = some a) (hrow : a.edge .upper < row ∧ row < a.edge .lower)
    (hcol : a.left ≤ col ∧ col ≤ a.right) :
    c.cell? row col =
      some ((Cell.fresh row).inked (strokesAt row col (op.strokes t.wireCount))) := by
  obtain ⟨a', hsettled⟩ := exists_isSettled h
  obtain rfl : a' = a := Option.some.inj (hsettled.area?_eq.symm.trans ha)
  have hcovers : op.covers row col = true := hsettled.covers_iff.mpr ⟨by omega, hcol⟩
  have hinside : (Canvas.fresh t.wireCount t.width).Inside row col := by
    have hlow := hsettled.within.low_nonneg
    have hhigh := hsettled.within.high_lt
    have hleft := hsettled.left_nonneg
    have hright := hsettled.right_lt
    simp only [Area.edge] at hrow
    show (0 ≤ row ∧ row < (2 * t.wireCount + 1 : Nat)) ∧ 0 ≤ col ∧ col < (t.width : Int)
    omega
  obtain ⟨j, hj⟩ := List.getElem?_of_mem h
  have hmem : (op, j) ∈ coverers t.placed row col := mem_coverers_iff.mpr ⟨hj, hcovers⟩
  rw [cell?_of_draws hdraws hinside]
  rcases coverers_cases (fun op hop ↦ exists_isSettled hop) t.pairwise_placed row col with
    hops | ⟨p, hops⟩ | ⟨⟨op₁, i⟩, ⟨op₂, k⟩, hops, hapart⟩
  · rw [hops] at hmem
    exact absurd hmem List.not_mem_nil
  · rw [hops, List.mem_singleton] at hmem
    rw [hops, List.flatMap_singleton, ← hmem]
  · -- Two operators share rows of edges only.
    obtain ⟨a₁, a₂, ⟨h₁, h₂⟩, hseam, -⟩ :=
      exists_shared (fun op hop ↦ exists_isSettled hop) hops hapart
    have hedge : a'.edge .upper = row ∨ a'.edge .lower = row := by
      simp only [hops, List.mem_cons, Prod.mk.injEq, List.not_mem_nil, or_false] at hmem
      rcases hmem with ⟨rfl, -⟩ | ⟨rfl, -⟩
      · obtain rfl : a₁ = a' := Option.some.inj (h₁.area?_eq.symm.trans ha)
        exact hseam.symm.imp (fun h ↦ h.row_eq.symm) fun h ↦ h.2.symm
      · obtain rfl : a₂ = a' := Option.some.inj (h₂.area?_eq.symm.trans ha)
        exact hseam.imp (fun h ↦ h.row_eq.symm) fun h ↦ h.2.symm
    omega

theorem isComposed_of_shared (hdraws : t.Draws c)
    (hinside : (Canvas.fresh t.wireCount t.width).Inside row col) {op op' : Operator} {i j : Nat}
    (hops : coverers t.placed row col = [(op, i), (op', j)]) (hapart : op.Apart op') :
    (t.diagram c).IsComposed row col := by
  have hmem : (op, i) ∈ coverers t.placed row col := hops ▸ List.mem_cons_self
  have hmem' : (op', j) ∈ coverers t.placed row col :=
    hops ▸ List.mem_cons_of_mem _ List.mem_cons_self
  have hop := List.mem_of_getElem? (mem_coverers_iff.mp hmem).1
  have hop' := List.mem_of_getElem? (mem_coverers_iff.mp hmem').1
  obtain ⟨a, b, ⟨ha, hb⟩, hseam, hcommutes⟩ :=
    exists_shared (fun op hop ↦ exists_isSettled hop) hops hapart
  obtain ⟨l, hl, hi, hj⟩ := exists_layer hmem hmem'
  have hcell := cell?_of_draws hdraws hinside
  rw [hops, List.flatMap_cons, List.flatMap_singleton] at hcell
  -- The row of the seam determines the wire above it, at which one of the spans ends.
  simp only [Area.Above, Area.edge] at hseam
  have hwire : a.span.high = row / 2 - 1 ∧ b.span.low = row / 2 - 1 + 1 ∨
      b.span.high = row / 2 - 1 ∧ a.span.low = row / 2 - 1 + 1 := by
    omega
  exact .shared hops ⟨hl, hi, hj⟩ (Operator.span?_of_area? ha.area?_eq)
    (Operator.span?_of_area? hb.area?_eq) hwire (by omega) (cell?_solo hdraws hinside hop)
    (cell?_solo hdraws hinside hop') hcommutes.merge_eq hcommutes.merge_eq' hcell

theorem isComposed_diagram (hdraws : t.Draws c)
    (hinside : (Canvas.fresh t.wireCount t.width).Inside row col) :
    (t.diagram c).IsComposed row col := by
  have hcell := cell?_of_draws hdraws hinside
  rcases coverers_cases (fun op hop ↦ exists_isSettled hop) t.pairwise_placed row col with
    hops | ⟨⟨op, j⟩, hops⟩ | ⟨⟨op, i⟩, ⟨op', j⟩, hops, hapart⟩
  · rw [hops] at hcell
    exact .untouched hops hcell
  · have hmem : (op, j) ∈ coverers t.placed row col := hops ▸ List.mem_cons_self
    have hop := List.mem_of_getElem? (mem_coverers_iff.mp hmem).1
    rw [hops, List.flatMap_singleton, ← cell?_solo hdraws hinside hop] at hcell
    exact .alone hops hcell
  · exact isComposed_of_shared hdraws hinside hops hapart

end Trace

/-- Whether a diagram is the composition of the pictures of the operators of a trace. -/
structure Diagram.IsComposition (d : Diagram) (t : Trace) : Prop where
  /-- There is one operator for each instruction, in order, and it is placed. -/
  places : t.Places d.operators
  /-- The canvas has the wires of the trace. -/
  wires_eq : d.canvas.wires = t.wireCount
  /-- It has the columns of the layers. -/
  width_eq : (d.canvas.width : Int) = totalWidth d.layerWidths
  /-- Every operator has an area, and alone it is drawn to its end. -/
  exists_solo : ∀ op ∈ d.operators, ∃ a c, op.area? = some a ∧ d.solo op = (c, none)
  /-- Every cell comes from the pictures of the operators. -/
  isComposed : ∀ row col, d.canvas.Inside row col → d.IsComposed row col

namespace Trace

theorem isComposition_diagram {t : Trace} {c : Canvas} (hdraws : t.Draws c) :
    (t.diagram c).IsComposition t where
  places := t.places_placed
  wires_eq := hdraws.wires_eq
  width_eq := width_diagram hdraws
  exists_solo op hop := by
    obtain ⟨a, ha⟩ := exists_isSettled hop
    obtain ⟨c', hc', -⟩ := exists_solo hdraws hop
    exact ⟨a, c', ha.area?_eq, hc'⟩
  isComposed row col hinside := by
    refine isComposed_diagram hdraws ?_
    rw [Canvas.Inside, ← hdraws.wires_eq, ← hdraws.width_eq]
    exact hinside

/-- **A diagram is the composition of the pictures of its operators.** -/
theorem exists_isComposition (t : Trace) :
    (t.HasCanvas ∧ ∃ d, Diagram.ofTrace t = .ok d ∧ d.IsComposition t) ∨
      (¬t.HasCanvas ∧ Diagram.ofTrace t = .error t.canvasRefusal) :=
  exists_ofTrace_or fun _ hdraws ↦ isComposition_diagram hdraws

/-- Two boxes below each other share a row, and where their corners meet there is a wall. -/
theorem exists_isComposition_two_boxes : ∃ d op op',
    Diagram.ofTrace (.ofSingles 2 [("h", 0), ("x", 1)]) = .ok d ∧ d.operators = [op, op'] ∧
      (d.solo op).1.cell? 2 0 = some (.glyph .bottomLeft) ∧
      (d.solo op').1.cell? 2 0 = some (.glyph .topLeft) ∧
      d.canvas.cell? 2 0 = some (.glyph .rightWall) := by
  have hcases := exists_isComposition (.ofSingles 2 [("h", 0), ("x", 1)])
  obtain ⟨-, d, hd, h⟩ := hcases.resolve_right fun h ↦ h.1 (by decide +kernel)
  obtain ⟨left, left', hops⟩ := h.places.exists_pair rfl
  have hrun : (Diagram.ofTrace (.ofSingles 2 [("h", 0), ("x", 1)])).toOption.map (fun d ↦
      (d.canvas.width, decide ((coverers d.operators 2 0).map Prod.fst = d.operators),
        d.operators.map fun op ↦ (d.solo op).1.cell? 2 0)) =
      some (5, true, [some (.glyph .bottomLeft), some (.glyph .topLeft)]) := by
    decide +kernel
  simp only [hd, Except.toOption, Option.map_some, Option.some.injEq, Prod.mk.injEq,
    decide_eq_true_eq, hops, List.map_cons, List.map_nil, List.cons.injEq, and_true] at hrun
  obtain ⟨hwidth, hshared, hsolo, hsolo'⟩ := hrun
  refine ⟨d, _, _, hd, hops, hsolo, hsolo', ?_⟩
  have hinside : d.canvas.Inside 2 0 := by
    rw [Canvas.Inside, Grid.Inside, h.wires_eq, hwidth]
    decide
  rcases h.isComposed 2 0 hinside with
    ⟨hnone, -⟩ | ⟨hone, -⟩ | ⟨htwo, -, -, -, -, -, hx, hy, hxy, -, hcell⟩
  · rw [← hops, hnone, hops] at hshared
    cases hshared
  · rw [← hops, hone, hops] at hshared
    cases hshared
  · -- The cell is the merge of the two corners.
    rw [← hops, htwo, hops] at hshared
    cases hshared
    obtain rfl := Option.some.inj (hx.symm.trans hsolo)
    obtain rfl := Option.some.inj (hy.symm.trans hsolo')
    have hmerge : (Cell.glyph .bottomLeft).merge (.glyph .topLeft) = .ok (.glyph .rightWall) := rfl
    exact hcell.trans (congrArg some (Except.ok.inj (hxy.symm.trans hmerge)))

end Trace

end WireDiagram
