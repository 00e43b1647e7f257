import Mathlib.Data.List.Nodup
import WireDiagram.Proofs.Connection

/-!
# The inside of boxes

Between its edges every box of a diagram shows its walls, the marks of its wires, its label, and
blanks everywhere else (`Trace.exists_showsBoxes`). This accounts for every cell there, so nothing
that other operators draw is inside of a box, and no wire runs through it.

## The last pass counts

Between its edges a box is drawn in four passes that only overwrite: walls around a blank inside,
then the marks of targets, of controls inside, and the label. No pass writes two things into one
cell, so a cell shows what the last pass wrote that reaches it (`Cell.inked_append_of_writes`). All
that is left to say is where each pass writes, and what.

A box with its controls outside has no dots inside, and its label starts one column further to the
left; apart from that the two kinds of boxes are the same panel (`Panel`).
-/

namespace WireDiagram

/-! ## Passes -/

/-- Whether no stroke of a pass is on a cell. -/
def Misses (strokes : List Stroke) (row col : Int) : Prop :=
  ∀ s ∈ strokes, ¬(s.row = row ∧ s.col = col)

/-- Whether a pass overwrites a cell, always with the same. -/
structure Writes (strokes : List Stroke) (row col : Int) (y : Cell) : Prop where
  /-- The cell is overwritten. -/
  mem : .put row col y ∈ strokes
  /-- Nothing else is done to the cell. -/
  eq_put : ∀ s ∈ strokes, s.row = row → s.col = col → s = .put row col y

namespace Cell

variable {x y : Cell} {row col : Int} {xs ys : List Stroke}

theorem inked_append_of_misses (h : Misses ys row col) :
    x.inked (strokesAt row col (xs ++ ys)) = x.inked (strokesAt row col xs) := by
  rw [strokesAt_append, strokesAt_eq_nil h, List.append_nil]

theorem inked_of_writes (h : Writes ys row col y) : x.inked (strokesAt row col ys) = y := by
  refine inked_puts (List.ne_nil_of_mem (mem_strokesAt_iff.mpr ⟨h.mem, rfl, rfl⟩)) fun s hs ↦ ?_
  obtain ⟨hs, hrow, hcol⟩ := mem_strokesAt_iff.mp hs
  exact ⟨row, col, h.eq_put s hs hrow hcol⟩

/-- **The last pass counts.** -/
theorem inked_append_of_writes (h : Writes ys row col y) :
    x.inked (strokesAt row col (xs ++ ys)) = y := by
  rw [strokesAt_append, inked_append, inked_of_writes h]

end Cell

theorem wireRow_injective {v w : Int} (h : wireRow v = wireRow w) : v = w := by
  rw [wireRow, wireRow] at h
  omega

/-- The pass that puts the same marks on the rows of some wires. -/
def rowMarks (wires : List Int) (marks : List (Int × Cell)) : List Stroke :=
  wires.flatMap fun w ↦ marks.map fun m ↦ .put (wireRow w) m.1 m.2

section RowMarks

variable {wires : List Int} {marks : List (Int × Cell)} {s : Stroke} {row col : Int}

theorem mem_rowMarks_iff : s ∈ rowMarks wires marks ↔
    ∃ w ∈ wires, ∃ m ∈ marks, s = .put (wireRow w) m.1 m.2 := by
  simp only [rowMarks, List.mem_flatMap, List.mem_map, eq_comm (a := s)]

theorem writes_rowMarks {w : Int} {y : Cell} (hw : w ∈ wires) (hm : (col, y) ∈ marks)
    (hnodup : (marks.map Prod.fst).Nodup) : Writes (rowMarks wires marks) (wireRow w) col y where
  mem := mem_rowMarks_iff.mpr ⟨w, hw, _, hm, rfl⟩
  eq_put s hs hrow hcol := by
    obtain ⟨v, -, m, hm', rfl⟩ := mem_rowMarks_iff.mp hs
    obtain rfl : m = (col, y) := List.inj_on_of_nodup_map hnodup hm' hm hcol
    obtain rfl : v = w := wireRow_injective hrow
    rfl

theorem misses_rowMarks_of_row (h : ∀ w ∈ wires, wireRow w ≠ row) :
    Misses (rowMarks wires marks) row col := by
  intro s hs hat
  obtain ⟨w, hw, m, -, rfl⟩ := mem_rowMarks_iff.mp hs
  exact h w hw hat.1

theorem misses_rowMarks_of_col (h : ∀ m ∈ marks, m.1 ≠ col) :
    Misses (rowMarks wires marks) row col := by
  intro s hs hat
  obtain ⟨w, -, m, hm, rfl⟩ := mem_rowMarks_iff.mp hs
  exact h m hm hat.2

end RowMarks

namespace Box

variable {b : Box} {s : Stroke}

theorem mem_walls_iff : s ∈ b.walls ↔ ∃ row, (b.top < row ∧ row < b.bottom) ∧
    (s = .put row b.left (.glyph .line) ∨ s = .put row b.right (.glyph .line) ∨
      ∃ col, (b.left < col ∧ col < b.right) ∧ s = .put row col .blank) := by
  simp only [walls, List.mem_flatMap, mem_intRange_iff, List.mem_cons, List.mem_map,
    Int.add_one_le_iff, eq_comm (a := Stroke.put _ _ Cell.blank)]

/-- The walls are written where no wire is. -/
theorem writes_walls_side {row col : Int} (hrow : b.top < row ∧ row < b.bottom)
    (hcol : col = b.left ∨ col = b.right) : Writes b.walls row col (.glyph .line) := by
  constructor
  · refine mem_walls_iff.mpr ⟨row, hrow, ?_⟩
    rcases hcol with rfl | rfl
    · exact Or.inl rfl
    · exact Or.inr (Or.inl rfl)
  · intro s hs hat hat'
    obtain ⟨_, -, rfl | rfl | ⟨_, hinside, rfl⟩⟩ := mem_walls_iff.mp hs
    · simp only [Stroke.row, Stroke.col] at hat hat'
      rw [hat, hat']
    · simp only [Stroke.row, Stroke.col] at hat hat'
      rw [hat, hat']
    · simp only [Stroke.col] at hat'
      omega

theorem writes_walls_inside {row col : Int} (hrow : b.top < row ∧ row < b.bottom)
    (hcol : b.left < col ∧ col < b.right) : Writes b.walls row col .blank := by
  constructor
  · exact mem_walls_iff.mpr ⟨row, hrow, Or.inr (Or.inr ⟨col, hcol, rfl⟩)⟩
  · intro s hs hat hat'
    obtain ⟨_, -, rfl | rfl | ⟨_, -, rfl⟩⟩ := mem_walls_iff.mp hs
    · simp only [Stroke.col] at hat'
      omega
    · simp only [Stroke.col] at hat'
      omega
    · simp only [Stroke.row, Stroke.col] at hat hat'
      rw [hat, hat']

/-- What is put on the row of a target, with its columns. -/
def targetRow (b : Box) (marked : Bool) : List (Int × Cell) :=
  (b.left, .glyph .leftWall) :: (b.right, .glyph .rightWall) ::
    if marked then [(b.left + 1, .ofChar '>')] else []

/-- What is put on the row of a control inside, with its columns. -/
def controlRow (b : Box) : List (Int × Cell) :=
  [(b.left, .glyph .leftWall), (b.left + 1, .glyph .dot), (b.right, .glyph .rightWall)]

theorem targetMarks_eq (b : Box) (marked : Bool) (targets : List Int) :
    b.targetMarks marked targets = rowMarks targets (b.targetRow marked) := by
  cases marked <;> rfl

theorem controlMarks_eq (b : Box) (controls : List Int) :
    b.controlMarks controls = rowMarks controls b.controlRow := rfl

theorem mem_labelStrokes_iff {col : Int} {label : String} :
    s ∈ b.labelStrokes col label ↔
      ∃ (k : Nat) (ch : Char), label.toList[k]? = some ch ∧
        s = .put b.labelRow (col + k) (.ofChar ch) := by
  simp only [labelStrokes, List.mem_map, Prod.exists, List.mem_zipIdx_iff_getElem?,
    eq_comm (b := s)]
  exact exists_comm

end Box

/-! ## Panels -/

/-- A box and what is written inside of it. -/
structure Panel where
  /-- The frame. -/
  box : Box
  /-- Whether the targets are pointed out. -/
  marked : Bool
  /-- The targets. -/
  targets : List Int
  /-- The controls inside. -/
  dots : List Int
  /-- The column of the first character of the label. -/
  start : Int
  /-- The label. -/
  label : String

namespace Panel

/-- The strokes of a panel: the frame, and three passes over its inside. -/
def strokes (p : Panel) : List Stroke :=
  p.box.frame ++ (p.box.targetMarks p.marked p.targets ++ p.box.controlMarks p.dots ++
    p.box.labelStrokes p.start p.label)

/-- Whether a panel has room for its label and for the marks before it. -/
structure HasRoom (p : Panel) : Prop where
  /-- The label starts inside. -/
  left_lt_start : p.box.left < p.start
  /-- The label ends at the right wall. -/
  start_add_length : p.start + p.label.length = p.box.right
  /-- The label is not empty. -/
  label_pos : 0 < p.label.length
  /-- There is a column for dots before the label. -/
  dots_lt_start : p.dots ≠ [] → p.box.left + 1 < p.start
  /-- No target is a control. -/
  disjoint : ∀ w ∈ p.targets, w ∉ p.dots

/-- The passes over the inside of a panel. -/
def passes (p : Panel) : List Stroke :=
  p.box.walls ++ rowMarks p.targets (p.box.targetRow p.marked) ++
    rowMarks p.dots p.box.controlRow ++ p.box.labelStrokes p.start p.label

variable {p : Panel} {x : Cell} {row col : Int}

/-- Between the edges of a panel there are its passes and nothing else. -/
theorem strokesAt_strokes (hrow : p.box.top < row ∧ row < p.box.bottom) :
    strokesAt row col p.strokes = strokesAt row col p.passes := by
  have hedges : strokesAt row col p.box.edges = [] := by
    refine strokesAt_eq_nil fun s hs hat ↦ ?_
    simp only [Box.edges, List.mem_flatMap, List.mem_cons, List.not_mem_nil, or_false] at hs
    obtain ⟨_, -, rfl | rfl⟩ := hs <;> simp only [Stroke.row] at hat <;> omega
  have hcorners : strokesAt row col p.box.corners = [] := by
    refine strokesAt_eq_nil fun s hs hat ↦ ?_
    simp only [Box.corners, List.mem_cons, List.not_mem_nil, or_false] at hs
    rcases hs with rfl | rfl | rfl | rfl <;> simp only [Stroke.row] at hat <;> omega
  simp only [strokes, passes, Box.frame, Box.targetMarks_eq, Box.controlMarks_eq, strokesAt_append,
    hedges, hcorners, List.nil_append, List.append_assoc]

theorem inked_label {k : Nat} {ch : Char} (hk : p.label.toList[k]? = some ch) :
    x.inked (strokesAt p.box.labelRow (p.start + k) p.passes) = .ofChar ch := by
  refine Cell.inked_append_of_writes ⟨Box.mem_labelStrokes_iff.mpr ⟨k, ch, hk, rfl⟩, ?_⟩
  intro s hs hrow hcol
  obtain ⟨k', ch', hk', rfl⟩ := Box.mem_labelStrokes_iff.mp hs
  obtain rfl : k' = k := by
    simp only [Stroke.col] at hcol
    omega
  rw [Option.some.inj (hk'.symm.trans hk)]

namespace HasRoom

variable (h : p.HasRoom)

include h

theorem left_lt_right : p.box.left + 1 < p.box.right := by
  have := h.left_lt_start
  have := h.start_add_length
  have := h.label_pos
  omega

theorem misses_label (hcell : ¬(row = p.box.labelRow ∧ p.start ≤ col ∧ col < p.box.right)) :
    Misses (p.box.labelStrokes p.start p.label) row col := by
  intro s hs hat
  obtain ⟨k, ch, hk, rfl⟩ := Box.mem_labelStrokes_iff.mp hs
  have hlt := (List.getElem?_eq_some_iff.mp hk).1
  have hfit := h.start_add_length
  rw [String.length_toList] at hlt
  simp only [Stroke.row, Stroke.col] at hat
  exact hcell (by omega)

theorem inked_control {w : Int} {y : Cell} (hw : w ∈ p.dots) (hm : (col, y) ∈ p.box.controlRow) :
    x.inked (strokesAt (wireRow w) col p.passes) = y := by
  have hwide := h.left_lt_right
  have hstart := h.dots_lt_start (List.ne_nil_of_mem hw)
  have hnodup : (p.box.controlRow.map Prod.fst).Nodup := by
    simp [Box.controlRow]
    omega
  have hcols : col = p.box.left ∨ col = p.box.left + 1 ∨ col = p.box.right := by
    simp only [Box.controlRow, List.mem_cons, Prod.mk.injEq, List.not_mem_nil, or_false] at hm
    omega
  rw [passes, Cell.inked_append_of_misses (h.misses_label (by omega))]
  exact Cell.inked_append_of_writes (writes_rowMarks hw hm hnodup)

/-- The row of a target shows its marks, but for those that the label hides. -/
theorem inked_target {w : Int} {y : Cell} (hw : w ∈ p.targets)
    (hm : (col, y) ∈ p.box.targetRow p.marked)
    (hlabel : ¬(wireRow w = p.box.labelRow ∧ p.start ≤ col ∧ col < p.box.right)) :
    x.inked (strokesAt (wireRow w) col p.passes) = y := by
  have hwide := h.left_lt_right
  have hnodup : ((p.box.targetRow p.marked).map Prod.fst).Nodup := by
    rw [Box.targetRow]
    split <;> simp <;> omega
  have hdots : ∀ v ∈ p.dots, wireRow v ≠ wireRow w := fun v hv heq ↦
    h.disjoint w hw (wireRow_injective heq ▸ hv)
  rw [passes, Cell.inked_append_of_misses (h.misses_label hlabel),
    Cell.inked_append_of_misses (misses_rowMarks_of_row hdots)]
  exact Cell.inked_append_of_writes (writes_rowMarks hw hm hnodup)

theorem inked_joined {w : Int} (hw : w ∈ p.targets ++ p.dots) :
    x.inked (strokesAt (wireRow w) p.box.left p.passes) = .glyph .leftWall ∧
      x.inked (strokesAt (wireRow w) p.box.right p.passes) = .glyph .rightWall := by
  have hleft := h.left_lt_start
  rcases List.mem_append.mp hw with hw | hw
  · exact ⟨h.inked_target hw (by simp [Box.targetRow]) (by omega),
      h.inked_target hw (by simp [Box.targetRow]) (by omega)⟩
  · exact ⟨h.inked_control hw (by simp [Box.controlRow]),
      h.inked_control hw (by simp [Box.controlRow])⟩

theorem inked_wall (hrow : p.box.top < row ∧ row < p.box.bottom)
    (hwires : ∀ w ∈ p.targets ++ p.dots, wireRow w ≠ row)
    (hcol : col = p.box.left ∨ col = p.box.right) :
    x.inked (strokesAt row col p.passes) = .glyph .line := by
  have hleft := h.left_lt_start
  rw [passes, Cell.inked_append_of_misses (h.misses_label (by omega)),
    Cell.inked_append_of_misses (misses_rowMarks_of_row fun w hw ↦
      hwires w (List.mem_append_right _ hw)),
    Cell.inked_append_of_misses (misses_rowMarks_of_row fun w hw ↦
      hwires w (List.mem_append_left _ hw))]
  exact Cell.inked_of_writes (Box.writes_walls_side hrow hcol)

theorem inked_blank (hrow : p.box.top < row ∧ row < p.box.bottom)
    (hcol : p.box.left < col ∧ col < p.box.right)
    (hlabel : ¬(row = p.box.labelRow ∧ p.start ≤ col))
    (hdots : col = p.box.left + 1 → ∀ w ∈ p.dots, wireRow w ≠ row)
    (hmarks : col = p.box.left + 1 → p.marked = true → ∀ w ∈ p.targets, wireRow w ≠ row) :
    x.inked (strokesAt row col p.passes) = .blank := by
  -- Marks are on the walls and right behind the left one, so elsewhere no row has any.
  have hcontrols : Misses (rowMarks p.dots p.box.controlRow) row col := by
    by_cases hfirst : col = p.box.left + 1
    · exact misses_rowMarks_of_row (hdots hfirst)
    · apply misses_rowMarks_of_col
      simp only [Box.controlRow, List.mem_cons, List.not_mem_nil, or_false, forall_eq_or_imp,
        forall_eq]
      omega
  have htargets : Misses (rowMarks p.targets (p.box.targetRow p.marked)) row col := by
    by_cases hfirst : col = p.box.left + 1 ∧ p.marked = true
    · exact misses_rowMarks_of_row (hmarks hfirst.1 hfirst.2)
    · apply misses_rowMarks_of_col
      rw [Box.targetRow]
      split
      · rename_i hmarked
        have hne : col ≠ p.box.left + 1 := fun heq ↦ hfirst ⟨heq, hmarked⟩
        simp only [List.mem_cons, List.not_mem_nil, or_false, forall_eq_or_imp, forall_eq]
        omega
      · simp only [List.mem_cons, List.not_mem_nil, or_false, forall_eq_or_imp, forall_eq]
        omega
  rw [passes, Cell.inked_append_of_misses (h.misses_label fun hat ↦ hlabel ⟨hat.1, hat.2.1⟩),
    Cell.inked_append_of_misses hcontrols, Cell.inked_append_of_misses htargets]
  exact Cell.inked_of_writes (Box.writes_walls_inside hrow hcol)

end HasRoom

end Panel

/-! ## Boxes of a diagram -/

/-- Whether a canvas shows a box: the wires that enter it, the controls inside of it and its label
are given, with the ends of its columns, the column where the label starts, and its first and last
wire. -/
structure Canvas.ShowsBox (c : Canvas) (op : Operator) (wires dots : List Int) (label : String)
    (left right start low high : Int) : Prop where
  /-- The columns are those of the operator. -/
  columns_eq : ∃ mid, op.columns = .ok (left, mid, right)
  /-- The first wire. -/
  min?_eq : wires.min? = some low
  /-- The last wire. -/
  max?_eq : wires.max? = some high
  /-- Every wire of the box meets both walls. -/
  joined : ∀ w ∈ wires, c.cell? (wireRow w) left = some (.glyph .leftWall) ∧
    c.cell? (wireRow w) right = some (.glyph .rightWall)
  /-- Elsewhere the walls are lines. -/
  walls : ∀ row, 2 * low < row → row < 2 * high + 2 → (∀ w ∈ wires, wireRow w ≠ row) →
    c.cell? row left = some (.glyph .line) ∧ c.cell? row right = some (.glyph .line)
  /-- The label ends at the right wall. -/
  start_add_length : left < start ∧ start + label.length = right
  /-- The label is written character by character, on the row in the middle. -/
  written : ∀ (k : Nat) (ch : Char), label.toList[k]? = some ch →
    c.cell? (low + high + 1) (start + k) = some (.ofChar ch)
  /-- The controls inside are shown by dots. -/
  dotted : ∀ w ∈ dots, c.cell? (wireRow w) (left + 1) = some (.glyph .dot)
  /-- Targets are pointed out if there are controls, but not where the label starts in the same
  cell. -/
  pointed : op.controls ≠ [] → ∀ w ∈ op.targets,
    ¬(wireRow w = low + high + 1 ∧ start = left + 1) →
      c.cell? (wireRow w) (left + 1) = some (.ofChar '>')
  /-- Everything else inside is blank. -/
  blank : ∀ row col, 2 * low < row → row < 2 * high + 2 → left < col → col < right →
    ¬(row = low + high + 1 ∧ start ≤ col) →
    (col = left + 1 → ∀ w ∈ dots, wireRow w ≠ row) →
    (col = left + 1 → op.controls ≠ [] → ∀ w ∈ op.targets, wireRow w ≠ row) →
      c.cell? row col = some .blank

/-- **A canvas shows a panel** if nothing but the panel is drawn between its edges. -/
theorem Panel.HasRoom.showsBox {p : Panel} (h : p.HasRoom) {c : Canvas} {op : Operator}
    {low mid high : Int} (hcolumns : op.columns = .ok (p.box.left, mid, p.box.right))
    (htargets : op.targets = p.targets) (hmarked : p.marked = true ↔ op.controls ≠ [])
    (hmin : (p.targets ++ p.dots).min? = some low) (hmax : (p.targets ++ p.dots).max? = some high)
    (htop : p.box.top = 2 * low) (hbottom : p.box.bottom = 2 * high + 2)
    (hcell : ∀ row col, p.box.top < row ∧ row < p.box.bottom →
      p.box.left ≤ col ∧ col ≤ p.box.right →
      c.cell? row col = some ((Cell.fresh row).inked (strokesAt row col p.strokes))) :
    c.ShowsBox op (p.targets ++ p.dots) p.dots p.label p.box.left p.box.right p.start low high := by
  have hwide := h.left_lt_right
  have hstart := h.left_lt_start
  have hfit := h.start_add_length
  have hpass : ∀ row col, p.box.top < row ∧ row < p.box.bottom →
      p.box.left ≤ col ∧ col ≤ p.box.right →
      c.cell? row col = some ((Cell.fresh row).inked (strokesAt row col p.passes)) := by
    intro row col hrow hcol
    rw [hcell row col hrow hcol, strokesAt_strokes hrow]
  have hbetween : ∀ w ∈ p.targets ++ p.dots, p.box.top < wireRow w ∧ wireRow w < p.box.bottom := by
    intro w hw
    have hlow := (List.min?_eq_some_iff.mp hmin).2 w hw
    have hhigh := (List.max?_eq_some_iff.mp hmax).2 w hw
    rw [wireRow]
    omega
  have hle : low ≤ high :=
    (List.max?_eq_some_iff.mp hmax).2 low (List.min?_eq_some_iff.mp hmin).1
  have hlabelRow : p.box.labelRow = low + high + 1 := by
    rw [Box.labelRow]
    omega
  refine ⟨⟨mid, hcolumns⟩, hmin, hmax, ?joined, ?walls, ⟨hstart, hfit⟩, ?written, ?dotted, ?pointed,
    ?blank⟩
  case joined =>
    intro w hw
    obtain ⟨hleft, hright⟩ := h.inked_joined (x := Cell.fresh (wireRow w)) hw
    rw [hpass _ _ (hbetween w hw) (by omega), hpass _ _ (hbetween w hw) (by omega), hleft, hright]
    exact ⟨rfl, rfl⟩
  case walls =>
    intro row hlow hhigh hwires
    have hrow : p.box.top < row ∧ row < p.box.bottom := by omega
    rw [hpass _ _ hrow (by omega), hpass _ _ hrow (by omega),
      h.inked_wall hrow hwires (Or.inl rfl), h.inked_wall hrow hwires (Or.inr rfl)]
    exact ⟨rfl, rfl⟩
  case written =>
    intro k ch hk
    have hlt := (List.getElem?_eq_some_iff.mp hk).1
    rw [String.length_toList] at hlt
    rw [← hlabelRow, hpass _ _ (by omega) (by omega), inked_label hk]
  case dotted =>
    intro w hw
    rw [hpass _ _ (hbetween w (List.mem_append_right _ hw)) (by omega),
      h.inked_control (y := .glyph .dot) hw (by simp [Box.controlRow])]
  case pointed =>
    intro hcontrols w hw hlabel
    rw [htargets] at hw
    rw [hpass _ _ (hbetween w (List.mem_append_left _ hw)) (by omega), h.inked_target hw]
    · simp [Box.targetRow, hmarked.mpr hcontrols]
    · omega
  case blank =>
    intro row col hlow hhigh hleft hright hlabel hdots hmarks
    rw [hpass _ _ (by omega) (by omega),
      h.inked_blank (by omega) ⟨hleft, hright⟩ (by rwa [hlabelRow]) hdots]
    intro hfirst hmark
    rw [← htargets]
    exact hmarks hfirst (hmarked.mp hmark)

namespace Instruction

variable {i : Instruction} {label : String}

theorem controlCount_pos_iff :
    decide (0 < i.operator.controlCount) = true ↔ i.operator.controls ≠ [] := by
  rw [controls_operator, Ne, List.map_eq_nil_iff, ← List.length_eq_zero_iff, decide_eq_true_iff]
  show 0 < (i.controls.length : Int) ↔ _
  omega

theorem controlCount_of_plainBox (hshape : i.shape = .plainBox label) :
    0 < i.operator.controlCount := by
  rw [shape] at hshape
  split at hshape
  · rename_i hinner
    obtain ⟨c, hc, -⟩ := List.any_eq_true.mp hinner
    exact Int.ofNat_lt.mpr (List.length_pos_of_mem hc)
  split at hshape
  · contradiction
  · contradiction

theorem disjoint_operator : ∀ w ∈ i.operator.targets, w ∉ i.operator.controls := by
  rw [targets_operator, controls_operator]
  intro w hw hw'
  obtain ⟨v, hv, rfl⟩ := List.mem_map.mp hw
  obtain ⟨v', hv', heq⟩ := List.mem_map.mp hw'
  obtain rfl : v' = v := Int.ofNat.inj heq
  exact i.disjoint v' (mem_sortedTargets_iff.mp hv) hv'

/-- The panel of a box with its controls inside. -/
def innerPanel (i : Instruction) (left : Int) (label : String) : Panel :=
  ⟨i.boxAround left i.minWire i.maxWire, decide (0 < i.operator.controlCount), i.operator.targets,
    i.operator.controls, left + 2, label⟩

/-- The panel of a box with its controls outside. -/
def outerPanel (i : Instruction) (left : Int) (label : String) : Panel :=
  ⟨i.targetBox left, decide (0 < i.operator.controlCount), i.operator.targets, [], left + 1, label⟩

theorem hasRoom_innerPanel (hshape : i.shape = .plainBox label) (left : Int) :
    (i.innerPanel left label).HasRoom where
  left_lt_start := by
    show left < left + 2
    omega
  start_add_length := by
    have hwidth : i.operator.width = label.length + 2 + 1 := by
      rw [Operator.width, shape_operator, hshape]
      simp only [if_pos (controlCount_of_plainBox hshape)]
    show left + 2 + (label.length : Int) = left + i.operator.width - 1
    omega
  label_pos := Nat.lt_of_lt_of_le Nat.two_pos (i.two_le_length_label (by rw [hshape]; rfl))
  dots_lt_start _ := by
    show left + 1 < left + 2
    omega
  disjoint := disjoint_operator

theorem hasRoom_outerPanel (hshape : i.shape = .controlledBox label) (left : Int) :
    (i.outerPanel left label).HasRoom where
  left_lt_start := Int.lt_succ left
  start_add_length := by
    have hwidth : i.operator.width = label.length + 2 := by
      rw [Operator.width, shape_operator, hshape]
    show left + 1 + (label.length : Int) = left + i.operator.width - 1
    omega
  label_pos := Nat.lt_of_lt_of_le Nat.two_pos (i.two_le_length_label (by rw [hshape]; rfl))
  dots_lt_start h := absurd rfl h
  disjoint _ _ := List.not_mem_nil

theorem plainBoxStrokes_eq (hshape : i.shape = .plainBox label) (left : Int) :
    i.plainBoxStrokes left label = (i.innerPanel left label).strokes := by
  have hmarked : decide (0 < i.operator.controlCount) = true :=
    decide_eq_true (controlCount_of_plainBox hshape)
  have hstart : (i.boxAround left i.minWire i.maxWire).left + 1 + 1 = left + 2 := by
    simp only [boxAround]
    omega
  simp only [plainBoxStrokes, innerPanel, Panel.strokes, hmarked, if_pos, hstart]

/-- Between the edges of a box with its controls outside there is its panel. -/
theorem strokesAt_controlledBox (hshape : i.shape = .controlledBox label) {left row col : Int}
    (hrow : (i.targetBox left).top < row ∧ row < (i.targetBox left).bottom) :
    strokesAt row col (i.controlledBoxStrokes left label) =
      strokesAt row col (i.outerPanel left label).strokes := by
  have hleads : strokesAt row col (i.controls.flatMap fun w : Nat ↦
      (i.targetBox left).attachStrokes (i.midColumn left) (wireRow w)) = [] := by
    refine strokesAt_eq_nil fun s hs hat ↦ ?_
    obtain ⟨w, hw, hs⟩ := List.mem_flatMap.mp hs
    have houter : wireRow w < (i.targetBox left).top ∨ (i.targetBox left).bottom < wireRow w :=
      outer_targetBox hshape (mem_controls_operator_iff.mpr ⟨w, hw, rfl⟩)
    have hrows := (Box.mem_attachStrokes houter hs).2.2
    omega
  show strokesAt row col ((i.targetBox left).frame ++ (_ ++ (i.controls.flatMap fun w : Nat ↦
    (i.targetBox left).attachStrokes (i.midColumn left) (wireRow w)) ++ _)) = _
  rw [strokesAt_append, strokesAt_append, strokesAt_append, hleads]
  simp only [outerPanel, Panel.strokes, strokesAt_append, Box.controlMarks_eq]
  rfl

end Instruction

namespace Trace

variable {t : Trace} {c : Canvas} {i : Instruction} {label : String} {left : Int}

theorem showsInnerBox (hdraws : t.Draws c) (hi : i ∈ t.instructions)
    (hop : i.operator.placedAt left ∈ t.placed) (hshape : i.shape = .plainBox label) :
    c.ShowsBox (i.operator.placedAt left) i.operator.wires i.operator.controls label left
      (left + i.operator.width - 1) (left + 2) i.minWire i.maxWire := by
  have hwires : i.operator.wires = i.operator.targets ++ i.operator.controls := by
    rw [Instruction.targets_operator, Instruction.controls_operator, ← List.map_append]
    rfl
  have hstrokes : (i.operator.placedAt left).strokes t.wireCount =
      (i.innerPanel left label).strokes :=
    (Instruction.strokes_plainBox (t.wires_lt i hi) hshape left).trans
      (Instruction.plainBoxStrokes_eq hshape left)
  rw [hwires]
  refine (Instruction.hasRoom_innerPanel hshape left).showsBox (Instruction.columns_placedAt left)
    rfl Instruction.controlCount_pos_iff (hwires ▸ Instruction.min?_operator)
    (hwires ▸ Instruction.max?_operator) ?_ ?_ fun row col hrow hcol ↦ ?_
  · simp only [Instruction.innerPanel, Instruction.boxAround, wireRow]
    omega
  · simp only [Instruction.innerPanel, Instruction.boxAround, wireRow]
    omega
  · simp only [Instruction.innerPanel, Instruction.boxAround, wireRow] at hrow hcol
    apply cell?_of_strokes_eq hdraws hop hstrokes
    · simp only [Instruction.span]
      omega
    · omega

theorem showsOuterBox (hdraws : t.Draws c) (hi : i ∈ t.instructions)
    (hop : i.operator.placedAt left ∈ t.placed) (hshape : i.shape = .controlledBox label) :
    c.ShowsBox (i.operator.placedAt left) i.operator.targets [] label left
      (left + i.operator.width - 1) (left + 1) i.firstTarget i.lastTarget := by
  have hstrokes := Instruction.strokes_controlledBox (t.wires_lt i hi) hshape left
  have htargets : i.operator.targets ++ [] = i.operator.targets := List.append_nil _
  have hfirst := Instruction.mem_span_of_mem_targets i.firstTarget_mem.1
  have hlast := Instruction.mem_span_of_mem_targets i.lastTarget_mem.1
  rw [← htargets]
  refine (Instruction.hasRoom_outerPanel hshape left).showsBox (Instruction.columns_placedAt left)
    rfl Instruction.controlCount_pos_iff (htargets ▸ Instruction.min?_targets_operator)
    (htargets ▸ Instruction.max?_targets_operator) (Instruction.top_targetBox left)
    (Instruction.bottom_targetBox left) fun row col hrow hcol ↦ ?_
  rw [← Instruction.strokesAt_controlledBox hshape hrow]
  have htop := i.top_targetBox left
  have hbottom := i.bottom_targetBox left
  simp only [Instruction.outerPanel] at hrow
  apply cell?_of_strokes_eq hdraws hop hstrokes
  · omega
  · simp only [Instruction.outerPanel, Instruction.targetBox, Instruction.boxAround] at hcol
    omega

/-- **Every box shows its wires, its label and nothing else** in the diagram of a trace. -/
theorem exists_showsBoxes (t : Trace) :
    (t.HasCanvas ∧ ∃ d, Diagram.ofTrace t = .ok d ∧ t.Places d.operators ∧
      ∀ op ∈ d.operators, ∀ label,
        (op.shape = .plainBox label → ∃ left right low high,
          d.canvas.ShowsBox op op.wires op.controls label left right (left + 2) low high) ∧
        (op.shape = .controlledBox label → ∃ left right low high,
          d.canvas.ShowsBox op op.targets [] label left right (left + 1) low high)) ∨
    (¬t.HasCanvas ∧ Diagram.ofTrace t = .error t.canvasRefusal) := by
  refine exists_ofTrace_or fun c hdraws ↦ ⟨t.places_placed, fun op hop label ↦ ?_⟩
  obtain ⟨i, hi, left, rfl⟩ := exists_instruction hop
  exact ⟨fun hshape ↦ ⟨_, _, _, _, showsInnerBox hdraws hi hop hshape⟩,
    fun hshape ↦ ⟨_, _, _, _, showsOuterBox hdraws hi hop hshape⟩⟩

/-- The trace of a box around a control, and of a box with its control above. -/
def twoBoxes : Trace :=
  ⟨3, [.gate "cz" [0, 2] [1] (by decide), .gate "h" [2] [0] (by decide)], by decide⟩

/-- The first box shows its control and its label in one row, and a target behind the wall of
another one. The second box has its control outside, so the label starts at the wall. -/
theorem exists_showsBoxes_twoBoxes : ∃ d inner outer,
    Diagram.ofTrace twoBoxes = .ok d ∧ d.operators = [inner, outer] ∧
      (∃ left mid right, inner.columns = .ok (left, mid, right) ∧
        [left, left + 1, left + 2, left + 3, left + 4, left + 5, right].map (d.canvas.cell? 3 ·) =
          [.glyph .leftWall, .glyph .dot, .ofChar ' ', .ofChar 'c', .ofChar 'z', .ofChar ' ',
            .glyph .rightWall].map some ∧
        d.canvas.cell? 1 (left + 1) = some (.ofChar '>')) ∧
      ∃ left mid right, outer.columns = .ok (left, mid, right) ∧
        [left, left + 1, left + 2, left + 3, right].map (d.canvas.cell? 5 ·) =
          [.glyph .leftWall, .ofChar ' ', .ofChar 'h', .ofChar ' ', .glyph .rightWall].map
            some := by
  have hroom : twoBoxes.HasCanvas := hasCanvas_of_totalWidth_le (by decide +kernel)
  obtain ⟨-, d, hd, hplaces, hshows⟩ :=
    (exists_showsBoxes twoBoxes).resolve_right fun h ↦ h.1 hroom
  obtain ⟨left, left', hops⟩ := hplaces.exists_pair rfl
  obtain ⟨hinner, -⟩ := hshows _ (hops ▸ List.mem_cons_self) " cz "
  obtain ⟨-, houter⟩ := hshows _ (hops ▸ List.mem_cons_of_mem _ List.mem_cons_self) " h "
  obtain ⟨left, right, low, high, hinner⟩ := hinner rfl
  obtain ⟨left', right', low', high', houter⟩ := houter rfl
  obtain ⟨mid, hcolumns⟩ := hinner.columns_eq
  obtain ⟨mid', hcolumns'⟩ := houter.columns_eq
  refine ⟨d, _, _, hd, hops, ⟨left, mid, right, hcolumns, ?_⟩,
    left', mid', right', hcolumns', ?_⟩
  · have hpointed := hinner.pointed
    rw [Instruction.wires_gate _ (by decide), Instruction.controls_gate] at hinner
    rw [Instruction.targets_gate _ (by decide), Instruction.controls_gate] at hpointed
    obtain rfl : 0 = low := Option.some.inj hinner.min?_eq
    obtain rfl : 2 = high := Option.some.inj hinner.max?_eq
    obtain ⟨hleft, hright⟩ := hinner.joined 1 (by decide)
    have hwritten := hinner.written
    simp only [Int.add_assoc] at hwritten
    simp only [List.map_cons, List.map_nil, List.cons.injEq, and_true]
    exact ⟨⟨hleft, hinner.dotted 1 List.mem_cons_self, hwritten 0 ' ' rfl, hwritten 1 'c' rfl,
      hwritten 2 'z' rfl, hwritten 3 ' ' rfl, hright⟩,
      hpointed (List.cons_ne_nil _ _) 0 List.mem_cons_self fun h ↦ absurd h.1 (by decide)⟩
  · rw [Instruction.targets_gate _ (by decide)] at houter
    obtain rfl : 2 = low' := Option.some.inj houter.min?_eq
    obtain rfl : 2 = high' := Option.some.inj houter.max?_eq
    obtain ⟨hleft, hright⟩ := houter.joined 2 List.mem_cons_self
    have hwritten := houter.written
    simp only [Int.add_assoc] at hwritten
    simp only [List.map_cons, List.map_nil, List.cons.injEq, and_true]
    exact ⟨hleft, hwritten 0 ' ' rfl, hwritten 1 'h' rfl, hwritten 2 ' ' rfl, hright⟩

end Trace

end WireDiagram
