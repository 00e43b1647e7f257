import WireDiagram.Draft.Canvas

/-!
# Canvases as drafts

A canvas is also a draft of one, and coordinates and cells are also values. Whatever is done to a
canvas by the operations on drafts is then what the operations on canvases do, so the drafts add
nothing but answers to what is no canvas, no coordinate or no cell.
-/

namespace WireDiagram

theorem Value.spread_value (n : Nat) (x : Cell) :
    x.value.spread n = .ok (List.replicate n x.value) := by
  cases x <;> rfl

theorem Value.showCells_value (cells : List Cell) :
    Value.showCells (cells.map Cell.value) = .ok (Cell.render cells) := by
  have shown : (cells.map Cell.value).mapM Value.cellChars = .ok (cells.map Cell.chars) := by
    induction cells with
    | nil => rfl
    | cons x cells ih =>
      simp only [List.map_cons, List.mapM_cons, ih, Value.cellChars, Value.cell?_value]
      rfl
  simp only [Value.showCells, shown, Cell.render, List.flatMap]
  rfl

namespace CanvasDraft

/-! ## Size -/

theorem dimension_int (n : Int) :
    dimension (.int n) = .ok n ∨ dimension (.int n) = .error .badValue := by
  simp only [dimension, Value.toInt_int, bind, Except.bind]
  split
  · exact .inl rfl
  · exact .inr rfl

theorem dimension_of_isSmall {n : Int} (h : Position.IsSmall n) : dimension (.int n) = .ok n :=
  if_pos h

/-- On integers, the size is checked as it is for a canvas: a dimension that is too large for a list
also makes the canvas too large. -/
theorem fresh_int (wires width : Int) :
    fresh (.int wires) (.int width) = (Canvas.make? wires width).map ofCanvas := by
  simp only [fresh, Value.isLess?_int, Value.toInt_int, bind, Except.bind]
  by_cases hneg : width < 0
  · simp [hneg, Canvas.make?, Canvas.checkSize, Except.map]
  by_cases hbad : wires < 0 ∨ (2 * wires + 1) * max width 1 > Canvas.maxCells
  · have refused : Canvas.make? wires width = .error .badValue := by
      by_cases hwires : wires < 0
      · simp [Canvas.make?, Canvas.checkSize, hneg, hwires, Except.map]
      · simp [Canvas.make?, Canvas.checkSize, hneg, hwires, hbad.resolve_left hwires, Except.map]
    rcases dimension_int (2 * wires + 1) with hrows | hrows <;>
      rcases dimension_int width with hcols | hcols <;>
        simp [hneg, hrows, hcols, refused, Except.map]
  · have hwires : ¬wires < 0 := fun h ↦ hbad (.inl h)
    have hcells : ¬(2 * wires + 1) * max width 1 > Canvas.maxCells := fun h ↦ hbad (.inr h)
    have rows_le : (2 * wires + 1) * 1 ≤ (2 * wires + 1) * max width 1 :=
      Int.mul_le_mul_of_nonneg_left (by omega) (by omega)
    have cols_le : 1 * max width 1 ≤ (2 * wires + 1) * max width 1 :=
      Int.mul_le_mul_of_nonneg_right (by omega) (by omega)
    have hmax : ((Canvas.maxCells : Nat) : Int) ≤ (Position.maxLength : Nat) := by decide
    have hrows := dimension_of_isSmall (n := 2 * wires + 1) ⟨by omega, by omega⟩
    have hcols := dimension_of_isSmall (n := width) ⟨by omega, by omega⟩
    have made : Canvas.make? wires width = .ok (Canvas.fresh wires.toNat width.toNat) := by
      simp [Canvas.make?, Canvas.checkSize, hneg, hwires, hcells, Except.map]
    have hw : ((wires.toNat : Nat) : Int) = wires := by omega
    have hc : ((width.toNat : Nat) : Int) = width := by omega
    simp [hneg, hrows, hcols, made, Except.map, ofCanvas, Canvas.fresh, hw, hc]

/-! ## One cell -/

theorem outside_ofCanvas (c : Canvas) (row col : Int) :
    (ofCanvas c).outside (.int row) (.int col) = c.outside row col := rfl

theorem checkInside_ofCanvas (c : Canvas) (row col : Int) :
    (ofCanvas c).checkInside (.int row) (.int col) =
      if c.Inside row col then .ok () else .error (c.outside row col) := by
  have inside : c.Inside row col ↔
      (0 ≤ row ∧ row < (ofCanvas c).height) ∧ 0 ≤ col ∧ col < (ofCanvas c).width := Iff.rfl
  simp only [checkInside, Value.isWithin_int, bind, Except.bind, inside, outside_ofCanvas]
  by_cases hrow : 0 ≤ row ∧ row < (ofCanvas c).height
  · by_cases hcol : 0 ≤ col ∧ col < (ofCanvas c).width <;> simp [hrow, hcol]
  · simp [hrow]

theorem select_ofCanvas (c : Canvas) (row col : Int) :
    (ofCanvas c).select (.int row) (.int col) =
      if c.Inside row col then .ok (.cell row col) else .error (c.outside row col) := by
  simp only [select, checkInside_ofCanvas, bind, Except.bind]
  by_cases h : c.Inside row col <;> simp [h, Value.integer?]

theorem put_ofCanvas (c : Canvas) (row col : Int) (x : Cell) :
    (ofCanvas c).put row col x.value = ofCanvas (c.put row col x) := by
  simp only [put, ofCanvas, Canvas.put, Grid.map_put]

theorem getAt_ofCanvas (c : Canvas) (row col : Int) :
    (ofCanvas c).getAt (.int row) (.int col) = (c.get row col).map Cell.value := by
  have found : (ofCanvas c).grid.cell? row col = (c.cell? row col).map Cell.value :=
    Grid.cell?_map Cell.value c.grid row col
  simp only [getAt, select_ofCanvas, Canvas.get, bind, Except.bind]
  by_cases h : c.Inside row col
  · simp only [h, if_true, found, outside_ofCanvas]
    cases c.cell? row col <;> rfl
  · have hnone : c.cell? row col = none := Grid.cell?_of_not_inside h
    simp [h, hnone, Except.map]

theorem setAt_ofCanvas (c : Canvas) (row col : Int) (x : Cell) :
    (ofCanvas c).setAt (.int row) (.int col) x.value = (c.set row col x).map ofCanvas := by
  simp only [setAt, select_ofCanvas, Canvas.set, bind, Except.bind]
  by_cases h : c.Inside row col <;> simp [h, putInto, put_ofCanvas, Except.map]

theorem mergeAt_ofCanvas (c : Canvas) (row col : Int) (x : Cell) :
    (ofCanvas c).mergeAt (.int row) (.int col) x.value = (c.merge row col x).map ofCanvas := by
  have found : (ofCanvas c).grid.cell? row col = (c.cell? row col).map Cell.value :=
    Grid.cell?_map Cell.value c.grid row col
  simp only [mergeAt, select_ofCanvas, Canvas.merge, Canvas.get, bind, Except.bind]
  by_cases h : c.Inside row col
  · simp only [h, if_true, found, outside_ofCanvas]
    cases c.cell? row col with
    | none => rfl
    | some existing =>
      simp only [Option.map_some, Value.mergeCells_value]
      cases existing.merge x with
      | error fault => rfl
      | ok result => simp [Except.map, put_ofCanvas]
  · have hnone : c.cell? row col = none := Grid.cell?_of_not_inside h
    simp [h, hnone, Except.map]

/-! ## Several cells of a row -/

theorem putFrom_ofCanvas (c : Canvas) (row col : Int) (n : Nat) (x : Cell) :
    (ofCanvas c).putFrom row col (List.replicate n x.value) =
      ofCanvas (c.putAll row (intRange col (col + n)) x) := by
  induction n generalizing c col with
  | zero => simp [putFrom, intRange_of_le, Canvas.putAll]
  | succ n ih =>
    have hstop : col + 1 + (n : Int) = col + (n + 1 : Nat) := by omega
    rw [List.replicate_succ, putFrom, put_ofCanvas, ih, hstop,
      intRange_of_lt (by omega : col < col + (n + 1 : Nat))]
    rfl

theorem fillAt_ofCanvas (c : Canvas) (row start stop : Int) (x : Cell) :
    (ofCanvas c).fillAt (.int row) (.int start) (.int stop) x.value =
      (c.fill row start stop x).map ofCanvas := by
  simp only [fillAt, Value.isAtLeast?_int, Value.minus_int, Value.toInt_int,
    checkInside_ofCanvas]
  by_cases h : stop ≤ start
  · simp [h, Canvas.fill, Except.map]
  · have hn : start + max (stop - start) 0 = stop := by omega
    by_cases hfirst : c.Inside row start <;> by_cases hlast : c.Inside row (stop - 1) <;>
      simp [h, hfirst, hlast, checkInside_ofCanvas, Canvas.fill, bind, Except.bind,
        Value.integer?, Value.spread_value, putFrom_ofCanvas, hn, Except.map]

theorem writeAt_ofCanvas (c : Canvas) (row col : Int) (offset : Nat) (chars : List Char) :
    (ofCanvas c).writeAt (.int row) (.int col) offset (chars.map fun ch ↦ (Cell.ofChar ch).value) =
      (ofCanvas (c.write row (col + offset) chars).1, (c.write row (col + offset) chars).2) := by
  induction chars generalizing c offset with
  | nil => rfl
  | cons ch chars ih =>
    simp only [List.map_cons, writeAt, Canvas.write, Value.plus_int, Except.bind, setAt_ofCanvas,
      Canvas.set]
    by_cases h : c.Inside row (col + offset)
    · simp [h, ih, Int.add_assoc, Except.map]
    · simp [h, Except.map]

/-! ## Rows -/

theorem rows_ofCanvas (c : Canvas) : (ofCanvas c).rows = c.rows.map (List.map Cell.value) :=
  Grid.toLists_map Cell.value c.grid

theorem rowAt_ofCanvas (c : Canvas) (r : Int) :
    (ofCanvas c).rowAt (.int r) = (c.row r).map (List.map Cell.value) := by
  simp only [rowAt, findRow, Value.integer?, rows_ofCanvas, Position.get?_map,
    Canvas.row, bind, Except.bind]
  cases Position.get? c.rows r <;> rfl

theorem showSlice_ofCanvas (c : Canvas) (start stop : Int) (cells : List Cell) :
    (ofCanvas c).showSlice (.int start) (.int stop) (cells.map Cell.value) =
      .ok (c.showSlice start (some stop) cells) := by
  simp only [showSlice, sliceStop, Value.slice_int, Except.bind, Position.slice_map,
    Value.showCells_value]
  rfl

theorem showRowAt_ofCanvas (c : Canvas) (r start stop : Int) :
    (ofCanvas c).showRowAt (.int r) (.int start) (.int stop) = c.showRow r start (some stop) := by
  simp only [showRowAt, findRow, Value.integer?, rows_ofCanvas, Position.get?_map,
    Canvas.showRow, Canvas.row, bind, Except.bind]
  cases Position.get? c.rows r with
  | none => rfl
  | some cells => simp [showSlice_ofCanvas, Except.map]

theorem showRowsAt_ofCanvas (c : Canvas) (start stop : Int) :
    (ofCanvas c).showRowsAt (.int start) (.int stop) = .ok (c.showRows start (some stop)) := by
  simp only [showRowsAt, rows_ofCanvas, Canvas.showRows]
  induction c.rows with
  | nil => rfl
  | cons cells rows ih =>
    simp only [List.map_cons, List.mapM_cons, showSlice_ofCanvas, ih]
    rfl

theorem text_ofCanvas (c : Canvas) : (ofCanvas c).text = .ok c.text := by
  have h : (ofCanvas c).showRowsAt .null .null = .ok (c.showRows 0 none) :=
    showRowsAt_ofCanvas c 0 c.width
  simp only [text, h]
  rfl

end CanvasDraft

end WireDiagram
