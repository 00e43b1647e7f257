import Mathlib.Data.List.Basic
import WireDiagram.Draft.Agreement.Drawing
import WireDiagram.Proofs.Reading

/-!
# A canvas is a bounded map

Whatever is called on a canvas, and in whichever order, the canvas answers and ends up like a map
from the coordinates of a rectangle to cells (`CanvasDraft.exists_follows`). The map is what a
caller has in mind: a cell outside of the rectangle is refused, a range is set cell by cell or not
at all, and a text is set character by character until a character is refused.

## What the map does not have

A canvas keeps rows of cells and looks at the two ends of a range only; the map knows no rows and
asks for every cell of the range. A canvas may also fail to merge, when a cell has no rank, and
that never happens here: calls put single cells on the canvas, so all its cells stay single
(`BoundedMap.Shows`).

## The operations

They are those on drafts, which take coordinates and contents of any kind. Here coordinates are
integers, however large, and contents are glyphs or characters, and on these a draft is a canvas.
-/

namespace WireDiagram

/-! ## Calls -/

/-- A call on a canvas, with any integers as coordinates and with single cells as contents. -/
inductive Canvas.Call where
  /-- Look up a cell. -/
  | get (row col : Int)
  /-- Overwrite a cell. -/
  | set (row col : Int) (x : Cell) (single : x.IsSingle)
  /-- Draw over a cell. -/
  | merge (row col : Int) (x : Cell) (single : x.IsSingle)
  /-- Overwrite the columns from `start` up to, not including, `stop`. -/
  | fill (row start stop : Int) (x : Cell) (single : x.IsSingle)
  /-- Write the characters of a text, from column `col` on. -/
  | write (row col : Int) (text : String)

namespace CanvasDraft

/-- The answer of an operation that gives nothing back. -/
def answer : Option Fault → Except Fault (Option Value)
  | none => .ok none
  | some fault => .error fault

/-- Paint on a canvas, and answer whether that failed. -/
def paint (c : CanvasDraft) (p : Painting Unit) : CanvasDraft × Except Fault (Option Value) :=
  ((p.on c).1, answer (p.on c).2)

/-- Make a call. The canvas that is returned is the one that is left, also if the call fails. -/
def call (c : CanvasDraft) : Canvas.Call → CanvasDraft × Except Fault (Option Value)
  | .get row col => (c, (c.getAt (.int row) (.int col)).map some)
  | .set row col x _ => c.paint (.stroke (·.setAt (.int row) (.int col) x.value))
  | .merge row col x _ => c.paint (.stroke (·.mergeAt (.int row) (.int col) x.value))
  | .fill row start stop x _ =>
    c.paint (.stroke (·.fillAt (.int row) (.int start) (.int stop) x.value))
  | .write row col text => c.paint (.write (.int row) (.int col) (.text text))

/-- Make calls in order, whether or not some of them fail, and list the answers. -/
def run (c : CanvasDraft) : List Canvas.Call → CanvasDraft × List (Except Fault (Option Value))
  | [] => (c, [])
  | k :: calls =>
    (((c.call k).1.run calls).1, (c.call k).2 :: ((c.call k).1.run calls).2)

end CanvasDraft

/-! ## Bounded maps -/

/-- Cells at the coordinates of a rectangle. What stands outside of it does not count. -/
structure BoundedMap where
  /-- The number of rows. -/
  height : Nat
  /-- The number of columns. -/
  width : Nat
  /-- The cell at a coordinate. -/
  cell : Int → Int → Cell

namespace BoundedMap

/-- The map of a canvas on which only the wires are drawn. -/
def fresh (wires width : Nat) : BoundedMap where
  height := 2 * wires + 1
  width := width
  cell row _ := if row % 2 = 1 then .glyph .wire else .blank

/-- Whether a coordinate is one of the rectangle. -/
abbrev Inside (m : BoundedMap) (row col : Int) : Prop :=
  Grid.Inside m.height m.width row col

/-- The map with one cell changed. -/
def update (m : BoundedMap) (row col : Int) (x : Cell) : BoundedMap :=
  { m with cell := fun i j ↦ if i = row ∧ j = col then x else m.cell i j }

/-- Change cells one after the other, up to the first one outside, which is refused. A cell that is
drawn over becomes what its merge leaves. -/
def strokeEach (m : BoundedMap) : List Stroke → BoundedMap × Except Fault.Kind (Option Value)
  | [] => (m, .ok none)
  | s :: strokes =>
    if m.Inside s.row s.col then
      (m.update s.row s.col (s.after (m.cell s.row s.col))).strokeEach strokes
    else (m, .error .position)

/-- Make a call. A range without columns has nothing to be refused or set. -/
def call (m : BoundedMap) : Canvas.Call → BoundedMap × Except Fault.Kind (Option Value)
  | .get row col =>
    (m, if m.Inside row col then .ok (some (m.cell row col).value) else .error .position)
  | .set row col x _ => m.strokeEach [.put row col x]
  | .merge row col x _ => m.strokeEach [.merge row col x]
  | .fill row start stop x _ =>
    if ∀ col ∈ intRange start stop, m.Inside row col then
      m.strokeEach ((intRange start stop).map fun col ↦ .put row col x)
    else (m, .error .position)
  | .write row col text => m.strokeEach (textStrokes row col text)

/-- Make calls in order, whether or not some of them fail, and list the answers. -/
def run (m : BoundedMap) :
    List Canvas.Call → BoundedMap × List (Except Fault.Kind (Option Value))
  | [] => (m, [])
  | k :: calls =>
    (((m.call k).1.run calls).1, (m.call k).2 :: ((m.call k).1.run calls).2)

/-- The contents of all cells, row by row. -/
def rows (m : BoundedMap) : List (List Value) :=
  (List.range m.height).map fun r : Nat ↦ (List.range m.width).map fun k : Nat ↦ (m.cell r k).value

/-! ### Sizes -/

/-- Whether two maps have the same rows and columns. -/
def SameSize (m m' : BoundedMap) : Prop :=
  m.height = m'.height ∧ m.width = m'.width

theorem sameSize_strokeEach (strokes : List Stroke) :
    ∀ m : BoundedMap, (m.strokeEach strokes).1.SameSize m := by
  induction strokes with
  | nil => exact fun m ↦ ⟨rfl, rfl⟩
  | cons s strokes ih =>
    intro m
    rw [strokeEach]
    split
    · exact ih (m.update s.row s.col (s.after (m.cell s.row s.col)))
    · exact ⟨rfl, rfl⟩

theorem sameSize_call (m : BoundedMap) (k : Canvas.Call) : (m.call k).1.SameSize m := by
  cases k with
  | get row col => exact ⟨rfl, rfl⟩
  | set row col x single => exact sameSize_strokeEach _ m
  | merge row col x single => exact sameSize_strokeEach _ m
  | fill row start stop x single =>
    rw [call]
    split
    · exact sameSize_strokeEach _ m
    · exact ⟨rfl, rfl⟩
  | write row col text => exact sameSize_strokeEach _ m

theorem sameSize_run (calls : List Canvas.Call) :
    ∀ m : BoundedMap, (m.run calls).1.SameSize m := by
  induction calls with
  | nil => exact fun m ↦ ⟨rfl, rfl⟩
  | cons k calls ih =>
    intro m
    have hrest := ih (m.call k).1
    have hcall := m.sameSize_call k
    exact ⟨hrest.1.trans hcall.1, hrest.2.trans hcall.2⟩

/-! ## One call -/

/-- Whether a canvas shows a map. -/
structure Shows (m : BoundedMap) (c : Canvas) : Prop where
  /-- The map has the rows of the canvas. -/
  height_eq : c.height = m.height
  /-- The map has the columns of the canvas. -/
  width_eq : c.width = m.width
  /-- The cells of the canvas show one character each. -/
  allSingle : c.AllSingle
  /-- The canvas has the cells of the map, and no others. -/
  cell?_eq : ∀ row col,
    c.cell? row col = if m.Inside row col then some (m.cell row col) else none

variable {m : BoundedMap} {c : Canvas}

theorem Shows.inside_iff (h : m.Shows c) (row col : Int) : c.Inside row col ↔ m.Inside row col := by
  rw [Inside, ← h.height_eq, ← h.width_eq]
  rfl

theorem shows_fresh (wires width : Nat) : (fresh wires width).Shows (Canvas.fresh wires width) where
  height_eq := rfl
  width_eq := rfl
  allSingle := Canvas.allSingle_fresh wires width
  cell?_eq row col := by
    by_cases h : (fresh wires width).Inside row col
    · rw [if_pos h]
      exact Canvas.cell?_fresh h
    · rw [if_neg h]
      exact Grid.cell?_of_not_inside h

theorem Shows.update (h : m.Shows c) {row col : Int} (hinside : m.Inside row col) {x : Cell}
    (hx : x.IsSingle) : (m.update row col x).Shows (c.put row col x) where
  height_eq := h.height_eq
  width_eq := h.width_eq
  allSingle := h.allSingle.put row col hx
  cell?_eq i j := by
    show _ = if m.Inside i j then some (if i = row ∧ j = col then x else m.cell i j) else none
    rw [Canvas.cell?_put, h.cell?_eq]
    by_cases hat : i = row ∧ j = col
    · obtain ⟨rfl, rfl⟩ := hat
      rw [if_pos ⟨(h.inside_iff i j).mpr hinside, rfl, rfl⟩, if_pos hinside, if_pos ⟨rfl, rfl⟩]
    · rw [if_neg fun hc ↦ hat hc.2, if_neg hat]

/-- **One stroke after the other, up to the first one outside.** -/
theorem Shows.strokeEach {strokes : List Stroke} (hs : ∀ s ∈ strokes, s.cell.IsSingle) :
    ∀ {m : BoundedMap} {c : Canvas}, m.Shows c →
      (m.strokeEach strokes).1.Shows (c.strokeAll strokes).1 ∧
        (CanvasDraft.answer (c.strokeAll strokes).2).mapError Fault.kind =
          (m.strokeEach strokes).2 := by
  induction strokes with
  | nil => exact fun h ↦ ⟨h, rfl⟩
  | cons s strokes ih =>
    intro m c h
    have hsingle := hs s List.mem_cons_self
    rw [BoundedMap.strokeEach, Canvas.strokeAll]
    by_cases hinside : m.Inside s.row s.col
    · have hcell : c.cell? s.row s.col = some (m.cell s.row s.col) := by
        rw [h.cell?_eq, if_pos hinside]
      have hafter : (s.after (m.cell s.row s.col)).IsSingle :=
        Stroke.isSingle_after hsingle (h.allSingle _ _ _ hcell)
      rw [if_pos hinside, Canvas.stroke_of_inside h.allSingle hsingle hcell]
      exact ih (fun t ht ↦ hs t (List.mem_cons_of_mem s ht)) (h.update hinside hafter)
    · rw [if_neg hinside, Canvas.stroke_of_not_inside (mt (h.inside_iff _ _).mp hinside)]
      exact ⟨h, rfl⟩

end BoundedMap

namespace CanvasDraft

variable {m : BoundedMap} {c : Canvas}

/-- Whether a canvas that is left and an answer are those of a map, where faults count by kind. -/
def Matches (d : CanvasDraft × Except Fault (Option Value))
    (m : BoundedMap × Except Fault.Kind (Option Value)) : Prop :=
  (∃ c, m.1.Shows c ∧ d.1 = ofCanvas c) ∧ d.2.mapError Fault.kind = m.2

theorem matches_paint (h : m.Shows c) {p : Painting Unit} {strokes : List Stroke}
    (hp : p.Paints c.wires (.ofStrokes strokes)) (hs : ∀ s ∈ strokes, s.cell.IsSingle) :
    Matches ((ofCanvas c).paint p) (m.strokeEach strokes) := by
  have hpaint : (ofCanvas c).paint p =
      (ofCanvas (c.strokeAll strokes).1, answer (c.strokeAll strokes).2) := by
    rw [paint, Painting.on, hp c rfl, c.paint_ofStrokes]
    rcases c.strokeAll strokes with ⟨c', _ | fault⟩ <;> rfl
  obtain ⟨hshows, hanswer⟩ := BoundedMap.Shows.strokeEach hs h
  rw [hpaint]
  exact ⟨⟨_, hshows, rfl⟩, hanswer⟩

/-- A range is filled like the map, although only its ends are looked at. -/
theorem matches_fill (h : m.Shows c) (row start stop : Int) {x : Cell} (hx : x.IsSingle) :
    Matches ((ofCanvas c).call (.fill row start stop x hx))
      (m.call (.fill row start stop x hx)) := by
  have hfill := fillAt_ofCanvas c row start stop x
  rw [call, BoundedMap.call]
  by_cases hall : ∀ col ∈ intRange start stop, m.Inside row col
  · have hinside : ∀ col ∈ intRange start stop, c.Inside row col :=
      fun col hcol ↦ (h.inside_iff row col).mpr (hall col hcol)
    have hsingle : ∀ s ∈ (intRange start stop).map fun col ↦ Stroke.put row col x,
        s.cell.IsSingle := by
      intro s hs
      obtain ⟨col, -, rfl⟩ := List.mem_map.mp hs
      exact hx
    obtain ⟨hshows, hanswer⟩ := BoundedMap.Shows.strokeEach hsingle h
    rw [c.strokeAll_put row _ x hinside] at hshows hanswer
    rw [c.fill_of_inside hinside] at hfill
    rw [if_pos hall, paint, Painting.on, Painting.stroke, hfill]
    exact ⟨⟨_, hshows, rfl⟩, hanswer⟩
  · have hnot : ¬∀ col ∈ intRange start stop, c.Inside row col :=
      fun hinside ↦ hall fun col hcol ↦ (h.inside_iff row col).mp (hinside col hcol)
    obtain ⟨fault, hfault, hkind⟩ := c.exists_fill_error hnot x
    rw [hfault] at hfill
    rw [if_neg hall, paint, Painting.on, Painting.stroke, hfill]
    exact ⟨⟨c, h, rfl⟩, congrArg Except.error hkind⟩

/-- **One call** leaves a canvas that shows what the call leaves of the map, and answers alike. -/
theorem matches_call (h : m.Shows c) (k : Canvas.Call) :
    Matches ((ofCanvas c).call k) (m.call k) := by
  cases k with
  | get row col =>
    refine ⟨⟨c, h, rfl⟩, ?_⟩
    show (((ofCanvas c).getAt (.int row) (.int col)).map some).mapError Fault.kind = _
    rw [getAt_ofCanvas, Canvas.get, h.cell?_eq, BoundedMap.call]
    by_cases hinside : m.Inside row col
    · rw [if_pos hinside, if_pos hinside]
      rfl
    · rw [if_neg hinside, if_neg hinside]
      rfl
  | set row col x single =>
    exact matches_paint h (Painting.paints_put row col x)
      fun s hs ↦ List.mem_singleton.mp hs ▸ single
  | merge row col x single =>
    have hp : (Painting.stroke (·.mergeAt (.int row) (.int col) x.value)).Paints c.wires
        (.ofStrokes [.merge row col x]) :=
      Painting.paints_stroke fun c ↦ mergeAt_ofCanvas c row col x
    exact matches_paint h hp fun s hs ↦ List.mem_singleton.mp hs ▸ single
  | fill row start stop x single => exact matches_fill h row start stop single
  | write row col text =>
    refine matches_paint h (Painting.paints_write row col text) fun s hs ↦ ?_
    obtain ⟨p, -, rfl⟩ := List.mem_map.mp hs
    exact Cell.isSingle_ofChar p.1

/-! ## All calls -/

/-- What a canvas and a map have in common after the same calls. -/
structure Follows (d : CanvasDraft) (m : BoundedMap) (calls : List Canvas.Call) : Prop where
  /-- Every call has the same answer; of a refusal only the kind counts. -/
  answers_eq : (d.run calls).2.map (Except.mapError Fault.kind) = (m.run calls).2
  /-- The cells are the same. -/
  rows_eq : (d.run calls).1.rows = (m.run calls).1.rows
  /-- There are as many rows as at first. -/
  length_rows : (d.run calls).1.rows.length = m.height
  /-- The rows are as long as at first. -/
  length_of_mem_rows : ∀ row ∈ (d.run calls).1.rows, row.length = m.width

theorem rows_of_shows (h : m.Shows c) : (ofCanvas c).rows = m.rows := by
  have hrows : c.rows = (List.range m.height).map fun r : Nat ↦
      (List.range m.width).map fun k : Nat ↦ m.cell r k := by
    have hinjective : Function.Injective (List.map (some : Cell → Option Cell)) :=
      List.map_injective_iff.mpr fun _ _ ↦ Option.some.inj
    refine List.map_injective_iff.mpr hinjective ?_
    rw [Canvas.map_some_rows, h.height_eq, h.width_eq, List.map_map]
    refine List.map_congr_left fun r hr ↦ ?_
    rw [Function.comp, List.map_map]
    refine List.map_congr_left fun k hk ↦ ?_
    have hinside : m.Inside r k := by
      rw [List.mem_range] at hr hk
      exact ⟨⟨by omega, by omega⟩, by omega, by omega⟩
    rw [h.cell?_eq, if_pos hinside]
    rfl
  rw [rows_ofCanvas, hrows, BoundedMap.rows, List.map_map]
  refine List.map_congr_left fun r _ ↦ ?_
  rw [Function.comp, List.map_map]
  rfl

/-- **Any calls** on a canvas that shows a map. -/
theorem matches_run (calls : List Canvas.Call) : ∀ {m : BoundedMap} {c : Canvas}, m.Shows c →
    (∃ c', (m.run calls).1.Shows c' ∧ ((ofCanvas c).run calls).1 = ofCanvas c') ∧
      ((ofCanvas c).run calls).2.map (Except.mapError Fault.kind) = (m.run calls).2 := by
  induction calls with
  | nil => exact fun {m c} h ↦ ⟨⟨c, h, rfl⟩, rfl⟩
  | cons k calls ih =>
    intro m c h
    obtain ⟨⟨c', hshows, hleft⟩, hanswer⟩ := matches_call h k
    obtain ⟨hrest, hanswers⟩ := ih hshows
    rw [run, BoundedMap.run, hleft, List.map_cons, hanswer, hanswers]
    exact ⟨hrest, rfl⟩

theorem follows_of_shows (h : m.Shows c) (calls : List Canvas.Call) :
    (ofCanvas c).Follows m calls := by
  obtain ⟨⟨c', hshows, hleft⟩, hanswers⟩ := matches_run calls h
  obtain ⟨hheight, hwidth⟩ := m.sameSize_run calls
  have hrows : ((ofCanvas c).run calls).1.rows = (m.run calls).1.rows := by
    rw [hleft, rows_of_shows hshows]
  refine ⟨hanswers, hrows, ?_, fun row hrow ↦ ?_⟩
  · rw [hrows, BoundedMap.rows, List.length_map, List.length_range, hheight]
  · rw [hrows, BoundedMap.rows] at hrow
    obtain ⟨r, -, rfl⟩ := List.mem_map.mp hrow
    rw [List.length_map, List.length_range, hwidth]

/-- **A canvas behaves as a bounded map**, whatever is called on it. There is a canvas of every size
up to the largest number of cells, and none beyond. -/
theorem exists_follows (wires width : Nat) (calls : List Canvas.Call) :
    ((2 * wires + 1) * max width 1 ≤ Canvas.maxCells ∧
        ∃ d, CanvasDraft.fresh (.int wires) (.int width) = .ok d ∧
          d.Follows (.fresh wires width) calls) ∨
      (Canvas.maxCells < (2 * wires + 1) * max width 1 ∧
        CanvasDraft.fresh (.int wires) (.int width) = .error .badValue) := by
  rw [fresh_int, Canvas.make?_natCast]
  rcases Nat.lt_or_ge Canvas.maxCells ((2 * wires + 1) * max width 1) with hlt | hle
  · rw [if_neg (Nat.not_le_of_lt hlt)]
    exact Or.inr ⟨hlt, rfl⟩
  · rw [if_pos hle]
    exact Or.inl ⟨hle, _, rfl, follows_of_shows (BoundedMap.shows_fresh wires width) calls⟩

end CanvasDraft

end WireDiagram
