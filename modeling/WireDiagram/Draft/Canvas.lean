import WireDiagram.Canvas
import WireDiagram.Draft.Contents
import WireDiagram.Value.Table

/-!
# Canvases driven by hand

A canvas whose size, coordinates and contents are whatever a caller hands in. A coordinate is
compared with the size of the canvas first, which every number can be; only then are cells looked
up, which integers and truth values can do. So a fraction outside of the canvas is refused like any
other coordinate there, and a fraction inside is no position of a cell.

## Truth values as coordinates

A truth value does not say where along an axis, but whether or not: beside an integer it selects the
whole row of that number, or nothing, and two of them select every row, or nothing. Which of the two
axes the truth value stands for makes no difference. What is put into a selection of rows may be a
nested list, which is then a table to fill the selection with.

## What is looked at first

The row is compared before the column, and a row outside settles the matter whatever the column is.
Only the number of a whole row is looked up without being compared first, so it also has to be small
enough for a position.
-/

namespace WireDiagram

/-- A canvas of a size and with contents that somebody wrote by hand. -/
structure CanvasDraft where
  /-- The number of wires, as it was written. -/
  writtenWires : Value
  /-- The number of columns, as it was written. -/
  writtenWidth : Value
  /-- The number of wires. -/
  wires : Nat
  /-- The number of columns. -/
  width : Nat
  /-- The contents of the cells. -/
  grid : Grid Value (2 * wires + 1) width

/-- The cells that a coordinate selects. -/
inductive Selection where
  /-- One cell. -/
  | cell (row col : Int)
  /-- All cells of the rows from `start` on, as many as a table with the axes `dims` has entries. -/
  | rows (start : Int) (dims : List Nat)

namespace CanvasDraft

/-! ## Size -/

/-- The draft that a canvas is. -/
def ofCanvas (c : Canvas) : CanvasDraft where
  writtenWires := .int c.wires
  writtenWidth := .int c.width
  wires := c.wires
  width := c.width
  grid := c.grid.map Cell.value

/-- The number of rows. -/
def height (c : CanvasDraft) : Nat :=
  2 * c.wires + 1

/-- A dimension of a canvas: a number without a fraction, not a truth value, that does as the length
of a list. -/
def dimension : Value → Except Fault Int
  | .bool _ => .error .wrongType
  | v => do
    let n ← v.toInt
    if Position.IsSmall n then .ok n else .error .badValue

/-- The fresh canvas of a size that may be any two values. After the sign of the width, the number
of rows and then the number of columns must be a dimension. -/
def fresh (wires width : Value) : Except Fault CanvasDraft := do
  match width.isLess? (.int 0) with
  | none => .error .wrongType
  | some true => .error (.negativeWidth width)
  | some false =>
    let count ← wires.toInt
    let _ ← dimension (.int (2 * count + 1))
    let columns ← dimension width
    let c ← Canvas.make? count columns
    .ok { ofCanvas c with writtenWires := wires, writtenWidth := width }

/-- The row that a wire runs along. -/
def rowOf (c : CanvasDraft) (wire : Value) : Except Fault Value := do
  if ← wire.isWithin c.wires then ((Value.int 2).times wire).bind (·.plus (.int 1))
  else .error (.wireOffCanvas wire c.writtenWires)

/-! ## Coordinates -/

/-- The refusal of a coordinate. -/
def outside (c : CanvasDraft) (row col : Value) : Fault :=
  .cellOffCanvas row col c.height c.writtenWidth

/-- Check that a coordinate is inside, whether or not there is a cell at it. -/
def checkInside (c : CanvasDraft) (row col : Value) : Except Fault Unit := do
  let hasRow ← row.isWithin c.height
  let hasCell ← if hasRow then col.isWithin c.width else .ok false
  if hasCell then .ok () else .error (c.outside row col)

/-- The length of the axis that a truth value adds to a selection. -/
def once (selected : Bool) : Nat :=
  if selected then 1 else 0

/-- The cells that a coordinate inside selects. -/
def select (c : CanvasDraft) (row col : Value) : Except Fault Selection := do
  c.checkInside row col
  match row, col with
  | .bool a, .bool b => .ok (.rows 0 [once (a && b), c.height])
  | .bool a, col => match col.integer? with
    -- The column is compared with the width, but it is a row that is looked up.
    | some k =>
      if a && (c.height : Int) ≤ k then .error .noSuchPosition else .ok (.rows k [once a])
    | none => .error .noSuchPosition
  | row, .bool b => match row.integer? with
    | some r => .ok (.rows r [once b])
    | none => .error .noSuchPosition
  | row, col => match row.integer?, col.integer? with
    | some r, some k => .ok (.cell r k)
    | _, _ => .error .noSuchPosition

/-! ## Reading and writing -/

/-- Put contents at a coordinate; a coordinate outside is ignored. -/
def put (c : CanvasDraft) (row col : Int) (x : Value) : CanvasDraft :=
  { c with grid := c.grid.put row col x }

/-- Put contents at successive columns of a row. -/
def putFrom (c : CanvasDraft) (row col : Int) : List Value → CanvasDraft
  | [] => c
  | x :: xs => (c.put row col x).putFrom row (col + 1) xs

/-- Put contents into successive rows. -/
def putRows (c : CanvasDraft) (row : Int) : List (List Value) → CanvasDraft
  | [] => c
  | xs :: rows => (c.putFrom row 0 xs).putRows (row + 1) rows

/-- The contents of the selected cells, from the first row on. -/
def contents (c : CanvasDraft) : Selection → List Value
  | .cell row col => (c.grid.cell? row col).toList
  | .rows start dims =>
    (intRange start (start + Table.size dims)).flatMap fun row ↦
      (intRange 0 c.width).filterMap (c.grid.cell? row)

/-- Put a value into the selected cells. -/
def putInto (c : CanvasDraft) (x : Value) : Selection → Except Fault CanvasDraft
  | .cell row col => .ok (c.put row col x)
  | .rows start dims => (x.spreadRows c.width dims).map (c.putRows start)

/-- The contents at a coordinate, which must select a single cell. -/
def getAt (c : CanvasDraft) (row col : Value) : Except Fault Value := do
  match ← c.select row col with
  | .cell r k => match c.grid.cell? r k with
    | some x => .ok x
    | none => .error (c.outside row col)
  | .rows _ _ => .error .wrongType

/-- Overwrite the selected cells. -/
def setAt (c : CanvasDraft) (row col x : Value) : Except Fault CanvasDraft := do
  c.putInto x (← c.select row col)

/-- What is put into selected rows when something is drawn over them, or nothing if they stay as
they are. There must be a single cell in them and a single entry to draw over it, and the cell is
looked at as a part of the canvas, which has no rank. -/
def mergeRows (existing : List Value) (x : Value) : Except Fault (Option Value) :=
  match existing, x.table?.map Table.entries with
  | [v], some [_] => match v.cell?, x.cell? with
    | some .blank, _ => .ok (some x)
    | _, some .blank => .ok none
    | _, some (.glyph .line) => .ok (some v.underLine)
    | _, _ => .error .wrongType
  | _, _ => .error .badValue

/-- Draw over the selected cells. -/
def mergeAt (c : CanvasDraft) (row col x : Value) : Except Fault CanvasDraft := do
  match ← c.select row col with
  | .cell r k => match c.grid.cell? r k with
    | some existing => (existing.mergeCells x).map (c.put r k)
    | none => .error (c.outside row col)
  | .rows start dims => match ← mergeRows (c.contents (.rows start dims)) x with
    | some merged => c.putInto merged (.rows start dims)
    | none => .ok c

/-- Overwrite the columns from `start` up to, not including, `stop`, all or none of them. For a
truth value as the row these are numbers of rows. -/
def fillAt (c : CanvasDraft) (row start stop x : Value) : Except Fault CanvasDraft :=
  match start.isAtLeast? stop with
  | none => .error .wrongType
  | some true => .ok c
  | some false => do
    c.checkInside row start
    c.checkInside row (← stop.minus (.int 1))
    match row with
    | .bool b =>
      let first ← start.toInt
      let last ← stop.toInt
      c.putInto x (.rows first [once b, (min last c.height - first).toNat])
    | row => match row.integer? with
      | none => .error .noSuchPosition
      | some r =>
        let first ← start.toInt
        let last ← stop.toInt
        (x.spread (last - first).toNat).map (c.putFrom r first)

/-- Overwrite cells of a row, one after the other, the first of them `offset` columns after `col`.
-/
def writeAt (c : CanvasDraft) (row col : Value) (offset : Nat) :
    List Value → CanvasDraft × Option Fault
  | [] => (c, none)
  | x :: xs => match (col.plus (.int offset)).bind fun k ↦ c.setAt row k x with
    | .ok c' => c'.writeAt row col (offset + 1) xs
    | .error fault => (c, some fault)

/-! ## Rows -/

/-- The contents of all rows. -/
def rows (c : CanvasDraft) : List (List Value) :=
  c.grid.toLists

/-- What the number of a row looks up. -/
inductive Found where
  /-- A row, with its contents. -/
  | row (xs : List Value)
  /-- A number of rows or of copies of the canvas, which are no contents of cells. -/
  | stack (size : Nat)

/-- Whether a value is a truth value. -/
def isChoice : Value → Bool
  | .bool _ => true
  | _ => false

/-- The numbers of rows that several values stand for. They must all be positions, or all be words
without a sign, which then stand for the positions with the same words; truth values are both. -/
def rowNumbers? (vs : List Value) : Option (List Int) := do
  let ns ← vs.mapM Value.integer?
  let isPlainWord (v : Value) : Bool := isChoice v || v.integer?.any (Position.IsUnsigned ·)
  if ns.all (Position.IsSmall ·) || vs.all isPlainWord then some (ns.map Position.ofWord) else none

/-- The rows that a list of numbers looks up, or a table of them. A list of truth values says of
every row whether it is looked up; there must be as many of them as rows. -/
def findEach (c : CanvasDraft) (rows : List Value) : Except Fault Found :=
  let isFound (r : Int) : Bool := (Position.resolve c.height r).isSome
  match (Value.list rows).table? with
  | none => .error .badValue
  | some ⟨axes, entries⟩ =>
    if !entries.isEmpty && entries.all isChoice then
      if axes = [c.height] then .ok (.stack (entries.filter Value.isPresent).length)
      else .error .noSuchPosition
    else if (rowNumbers? entries).any fun ns ↦ ns.all isFound then .ok (.stack rows.length)
    else .error .noSuchPosition

/-- What a value looks up as the number of a row, which may be counted from the bottom. A truth
value looks up the canvas as a whole or nothing, and no value at all the whole canvas. -/
def findRow (c : CanvasDraft) : Value → Except Fault Found
  | .null => .ok (.stack 1)
  | .bool b => .ok (.stack (if b then 1 else 0))
  | .list rows => c.findEach rows
  | v => match v.integer? with
    | some r => match Position.get? c.rows r with
      | some xs => .ok (.row xs)
      | none => .error (Canvas.noSuchRow r)
    | none => .error .noSuchPosition

/-- The contents of a row. -/
def rowAt (c : CanvasDraft) (r : Value) : Except Fault (List Value) := do
  match ← c.findRow r with
  | .row xs => .ok xs
  | .stack 0 => .ok []
  | .stack _ => .error .wrongType

/-- The end of a slice, which is the width of the canvas if it is not given. -/
def sliceStop (c : CanvasDraft) : Value → Value
  | .null => .int c.width
  | v => v

/-- The characters that show part of a row with the given contents. -/
def showSlice (c : CanvasDraft) (start stop : Value) (xs : List Value) :
    Except Fault (List Char) :=
  (Value.slice xs start (c.sliceStop stop)).bind Value.showCells

/-- The characters that show part of a row. -/
def showRowAt (c : CanvasDraft) (r start stop : Value) : Except Fault (List Char) := do
  match ← c.findRow r with
  | .row xs => c.showSlice start stop xs
  | .stack size =>
    let shown ← Value.slice (List.replicate size ()) start (c.sliceStop stop)
    if shown.isEmpty then .ok [] else .error .wrongType

/-- The characters that show the same columns of every row. -/
def showRowsAt (c : CanvasDraft) (start stop : Value) : Except Fault (List (List Char)) :=
  c.rows.mapM (c.showSlice start stop)

/-- The whole canvas, its rows separated by line feeds. -/
def text (c : CanvasDraft) : Except Fault String :=
  (c.showRowsAt .null .null).map fun rows ↦ "\n".intercalate (rows.map String.ofList)

end CanvasDraft

end WireDiagram
