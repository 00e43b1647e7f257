import WireDiagram.Cell
import WireDiagram.Grid
import WireDiagram.Position

/-!
# Canvases

A canvas is a grid of cells for some wires. Wire `w` runs along row `2 * w + 1`; the rows between
the wires, above the first and below the last are free for the edges of boxes and for lines between
wires.

## Refusals

Coordinates are integers of any size. An operation on one cell refuses a coordinate outside and
changes nothing; `fill` looks at both ends of its range before it writes; `write` writes character
by character and stops at the first that does not fit, so it gives a canvas back in any case.

A whole row is looked up by its number, and there are two ways for that to fail: the number belongs
to no row, or it fits a word but is too large for a position.
-/

namespace WireDiagram

/-- A grid of cells for some wires. -/
structure Canvas where
  /-- The number of wires. -/
  wires : Nat
  /-- The number of columns. -/
  width : Nat
  /-- The cells. -/
  grid : Grid Cell (2 * wires + 1) width

/-- The row that a wire runs along. -/
def wireRow (wire : Int) : Int :=
  2 * wire + 1

/-- The row of a wire, if it is one of `count` wires. -/
def checkedRow (count : Nat) (wire : Int) : Except Fault Int :=
  if 0 ≤ wire ∧ wire < count then .ok (wireRow wire)
  else .error (.wireOffCanvas (.int wire) (.int count))

namespace Canvas

/-! ## Fresh canvases -/

/-- The canvas on which only the wires are drawn. -/
def fresh (wires width : Nat) : Canvas where
  wires := wires
  width := width
  grid := .ofRows _ _ fun r ↦ if r % 2 = 1 then .glyph .wire else .blank

/-- No canvas has more cells than this. -/
def maxCells : Nat := Nat.pow 2 60 - 1

/-- Check the size of a canvas. A canvas without columns takes as much room as one with a single
column. -/
def checkSize (wires width : Int) : Except Fault Unit :=
  if width < 0 then .error (.negativeWidth (.int width))
  else if wires < 0 then .error .badValue
  else if (2 * wires + 1) * max width 1 > maxCells then .error .badValue
  else .ok ()

/-- The fresh canvas of a size that is still to be checked. -/
def make? (wires width : Int) : Except Fault Canvas :=
  (checkSize wires width).map fun _ ↦ fresh wires.toNat width.toNat

/-- The number of rows. -/
def height (c : Canvas) : Nat :=
  2 * c.wires + 1

theorem make?_natCast (wires width : Nat) : make? wires width =
    if (2 * wires + 1) * max width 1 ≤ maxCells then .ok (fresh wires width)
    else .error .badValue := by
  have hmax : max (width : Int) 1 = (max width 1 : Nat) := by omega
  have hcells : (2 * (wires : Int) + 1) * max (width : Int) 1 =
      ((2 * wires + 1) * max width 1 : Nat) := by
    rw [hmax, Int.natCast_mul]
    rfl
  rw [make?, checkSize, if_neg (by omega), if_neg (by omega), hcells]
  by_cases h : (2 * wires + 1) * max width 1 ≤ maxCells
  · rw [if_neg (by omega), if_pos h]
    rfl
  · rw [if_pos (by omega), if_neg h]
    rfl

/-! ## One cell -/

/-- Whether a coordinate is one of the canvas. -/
abbrev Inside (c : Canvas) (row col : Int) : Prop :=
  Grid.Inside (2 * c.wires + 1) c.width row col

/-- The contents of a canvas: the cell at a coordinate inside. -/
def cell? (c : Canvas) (row col : Int) : Option Cell :=
  c.grid.cell? row col

/-- Put a cell at a coordinate; a coordinate outside is ignored. -/
def put (c : Canvas) (row col : Int) (x : Cell) : Canvas :=
  { c with grid := c.grid.put row col x }

theorem cell?_fresh {wires width : Nat} {row col : Int} (h : (fresh wires width).Inside row col) :
    (fresh wires width).cell? row col = some (if row % 2 = 1 then .glyph .wire else .blank) := by
  have hmod : row.toNat % 2 = 1 ↔ row % 2 = 1 := by
    have := h.1
    omega
  have hrow := Grid.cell?_ofRows (fun r : Nat ↦ if r % 2 = 1 then Cell.glyph .wire else .blank) h
  simp only [hmod] at hrow
  exact hrow

theorem cell?_put (c : Canvas) (row col : Int) (x : Cell) (i j : Int) :
    (c.put row col x).cell? i j =
      if c.Inside row col ∧ i = row ∧ j = col then some x else c.cell? i j :=
  c.grid.cell?_put row col x i j

/-- The refusal of a coordinate. -/
def outside (c : Canvas) (row col : Int) : Fault :=
  .cellOffCanvas (.int row) (.int col) c.height (.int c.width)

/-- The cell at a coordinate. -/
def get (c : Canvas) (row col : Int) : Except Fault Cell :=
  match c.cell? row col with
  | some x => .ok x
  | none => .error (c.outside row col)

/-- Overwrite a cell. -/
def set (c : Canvas) (row col : Int) (x : Cell) : Except Fault Canvas :=
  if c.Inside row col then .ok (c.put row col x) else .error (c.outside row col)

/-- Draw over a cell. -/
def merge (c : Canvas) (row col : Int) (x : Cell) : Except Fault Canvas := do
  let existing ← c.get row col
  let result ← existing.merge x
  .ok (c.put row col result)

theorem get_eq_ok_iff {c : Canvas} {row col : Int} {x : Cell} :
    c.get row col = .ok x ↔ c.cell? row col = some x := by
  unfold get
  split <;> simp_all

theorem set_of_inside {c : Canvas} {row col : Int} (h : c.Inside row col) (x : Cell) :
    c.set row col x = .ok (c.put row col x) :=
  if_pos h

theorem set_of_not_inside {c : Canvas} {row col : Int} (h : ¬c.Inside row col) (x : Cell) :
    c.set row col x = .error (c.outside row col) :=
  if_neg h

/-! ## Several cells of a row -/

/-- Put one cell at several columns. -/
def putAll (c : Canvas) (row : Int) (cols : List Int) (x : Cell) : Canvas :=
  cols.foldl (fun c col ↦ c.put row col x) c

/-- Overwrite the columns from `start` up to, not including, `stop`, all or none of them. -/
def fill (c : Canvas) (row start stop : Int) (x : Cell) : Except Fault Canvas :=
  if stop ≤ start then .ok c
  else if ¬c.Inside row start then .error (c.outside row start)
  else if ¬c.Inside row (stop - 1) then .error (c.outside row (stop - 1))
  else .ok (c.putAll row (intRange start stop) x)

/-- Overwrite cells with characters, one after the other from `col` on. -/
def write (c : Canvas) (row col : Int) : List Char → Canvas × Option Fault
  | [] => (c, none)
  | ch :: chars =>
    if c.Inside row col then (c.put row col (.ofChar ch)).write row (col + 1) chars
    else (c, some (c.outside row col))

/-! ## Rows -/

/-- The cells of all rows. -/
def rows (c : Canvas) : List (List Cell) :=
  c.grid.toLists

/-- The refusal of a number that is not the number of a row. A number that fits a word, but no
position, is not looked up at all. -/
def noSuchRow (r : Int) : Fault :=
  if Position.IsUnsigned r then .tooLarge else .noSuchPosition

/-- The cells of a row, which may be counted from the bottom. -/
def row (c : Canvas) (r : Int) : Except Fault (List Cell) :=
  match Position.get? c.rows r with
  | some cells => .ok cells
  | none => .error (noSuchRow r)

/-- The characters that show some cells from column `start` on, up to `stop` if it is given. -/
def showSlice (c : Canvas) (start : Int) (stop? : Option Int) (cells : List Cell) : List Char :=
  Cell.render (Position.slice cells start (stop?.getD c.width))

/-- The characters that show part of a row. -/
def showRow (c : Canvas) (r start : Int) (stop? : Option Int) : Except Fault (List Char) :=
  (c.row r).map (c.showSlice start stop?)

/-- The characters that show the same columns of every row. -/
def showRows (c : Canvas) (start : Int) (stop? : Option Int) : List (List Char) :=
  c.rows.map (c.showSlice start stop?)

/-- The whole canvas, its rows separated by line feeds. -/
def text (c : Canvas) : String :=
  "\n".intercalate ((c.showRows 0 none).map String.ofList)

end Canvas

end WireDiagram
