import WireDiagram.Operator.Columns
import WireDiagram.Proofs.Junction

/-!
# Areas

A placed operator has a rectangle of the canvas: all rows from above its first wire to below its
last one, and its own columns. Rows are shared where one span ends at the wire before the next one
starts, so rectangles of one layer may touch, but in one row only.

A layout keeps any two areas apart in one of two ways (`Area.Apart`): they share no column, or their
spans do not meet and the columns of one lie among those of the other. From this alone follows what
the drawings need: areas meet in seams only (`Area.Apart.seam`), no three areas meet in one cell
(`Area.not_three`), and no left end meets a right end (`Area.Apart.left_ne_right`).

## Edges

`edgeMark` says which mark the edge of a box has in a column. Where two areas meet, each of them has
at most such a mark, and merging the two does not depend on their order (`merge_edgeMark_comm`).
-/

namespace WireDiagram

/-- The rectangle of a placed operator, edges included. -/
structure Area where
  /-- The wires that the rectangle reaches over. -/
  span : Span
  /-- The first column. -/
  left : Int
  /-- The last column. -/
  right : Int
  deriving DecidableEq, Repr

/-- The rectangle of an operator that has wires and has been placed. -/
def Operator.area? (op : Operator) : Option Area :=
  match op.span?, op.columns with
  | some span, .ok (left, _, right) => some ⟨span, left, right⟩
  | _, _ => none

/-- The two sides of a row of wires. -/
inductive Side where
  /-- Above the wires. -/
  | upper
  /-- Below the wires. -/
  | lower
  deriving DecidableEq, Repr

namespace Area

/-- The row of an edge: the one above the first wire, or the one below the last. -/
def edge (a : Area) : Side → Int
  | .upper => 2 * a.span.low
  | .lower => 2 * a.span.high + 2

/-- Whether a cell lies in an area. -/
def Covers (a : Area) (row col : Int) : Prop :=
  (a.edge .upper ≤ row ∧ row ≤ a.edge .lower) ∧ a.left ≤ col ∧ col ≤ a.right

instance (a : Area) (row col : Int) : Decidable (a.Covers row col) :=
  inferInstanceAs
    (Decidable ((a.edge .upper ≤ row ∧ row ≤ a.edge .lower) ∧ a.left ≤ col ∧ col ≤ a.right))

theorem covers_iff {a : Area} {row col : Int} : a.Covers row col ↔
    (2 * a.span.low ≤ row ∧ row ≤ 2 * a.span.high + 2) ∧ a.left ≤ col ∧ col ≤ a.right :=
  Iff.rfl

/-! ## Areas apart -/

/-- Whether the columns of one area lie among those of another. -/
def IsAmong (a b : Area) : Prop :=
  b.left ≤ a.left ∧ a.right ≤ b.right

/-- How a layout keeps two areas apart. -/
def Apart (a b : Area) : Prop :=
  (a.right < b.left ∨ b.right < a.left) ∨
    ¬a.span.meets b.span ∧ (a.IsAmong b ∨ b.IsAmong a)

theorem Apart.symm {a b : Area} (h : a.Apart b) : b.Apart a := by
  rcases h with h | ⟨hspan, hcols⟩
  · exact Or.inl h.symm
  · exact Or.inr ⟨by rwa [Span.meets_comm], hcols.symm⟩

/-- Whether area `b` follows right below area `a`, and the row is the one between them. -/
def Above (a b : Area) (row : Int) : Prop :=
  b.span.low = a.span.high + 1 ∧ row = a.edge .lower

theorem Above.row_eq {a b : Area} {row : Int} (h : a.Above b row) : row = b.edge .upper := by
  obtain ⟨hspan, hrow⟩ := h
  rw [hrow, edge, edge]
  omega

/-- **Areas that are apart meet in seams only.** -/
theorem Apart.seam {a b : Area} {row col : Int} (h : a.Apart b) (ha : a.Covers row col)
    (hb : b.Covers row col) : a.Above b row ∨ b.Above a row := by
  rw [covers_iff] at ha hb
  rw [Above, Above, edge, edge]
  rcases h with hcols | ⟨hspan, -⟩
  · omega
  · rw [Span.meets_iff] at hspan
    omega

/-- **A seam has two sides.** Of three areas that are apart, no cell lies in all. -/
theorem not_three {a b c : Area} {row col : Int} (ha : a.Covers row col) (hb : b.Covers row col)
    (hc : c.Covers row col) (hab : a.Apart b) (hac : a.Apart c) (hbc : b.Apart c)
    (hle : a.span.low ≤ a.span.high) (hle' : b.span.low ≤ b.span.high)
    (hle'' : c.span.low ≤ c.span.high) : False := by
  have h₁ := hab.seam ha hb
  have h₂ := hac.seam ha hc
  have h₃ := hbc.seam hb hc
  simp only [Above, edge] at h₁ h₂ h₃
  omega

theorem Apart.left_ne_right {a b : Area} (h : a.Apart b) (hwide : a.left < a.right)
    (hwide' : b.left < b.right) (col : Int) :
    ¬(col = a.left ∧ col = b.right) ∧ ¬(col = a.right ∧ col = b.left) := by
  rcases h with hcols | ⟨-, hamong⟩
  · omega
  · simp only [IsAmong] at hamong
    omega

end Area

/-- Whether a cell lies in the area of an operator. -/
def Operator.covers (op : Operator) (row col : Int) : Bool :=
  match op.area? with
  | some a => decide (a.Covers row col)
  | none => false

theorem Operator.covers_iff {op : Operator} {a : Area} (h : op.area? = some a) {row col : Int} :
    op.covers row col = true ↔ a.Covers row col := by
  rw [Operator.covers, h]
  exact decide_eq_true_iff

/-! ## Marks on edges -/

/-- The left corner of a box on one side. -/
def Side.leftCorner : Side → Glyph
  | .upper => .topLeft
  | .lower => .bottomLeft

/-- The right corner of a box on one side. -/
def Side.rightCorner : Side → Glyph
  | .upper => .topRight
  | .lower => .bottomRight

/-- The mark that one edge of a box from column `left` to column `right` has in a column. -/
def edgeMark (left right : Int) (side : Side) (col : Int) : Option Glyph :=
  if col = left then some side.leftCorner
  else if col = right then some side.rightCorner
  else if left < col ∧ col < right then some .wire
  else none

theorem edgeMark_eq_some {left right col : Int} {side : Side} {g : Glyph}
    (h : edgeMark left right side col = some g) :
    g = .wire ∨ col = left ∧ g = side.leftCorner ∨ col = right ∧ g = side.rightCorner := by
  unfold edgeMark at h
  split at h
  · rename_i hleft
    exact Or.inr (Or.inl ⟨hleft, (Option.some.inj h).symm⟩)
  split at h
  · rename_i hright
    exact Or.inr (Or.inr ⟨hright, (Option.some.inj h).symm⟩)
  split at h
  · exact Or.inl (Option.some.inj h).symm
  · contradiction

/-- **Edges merge in either order.** -/
theorem merge_edgeMark_comm {left right left' right' col : Int} {g g' : Glyph}
    (h : edgeMark left right .lower col = some g)
    (h' : edgeMark left' right' .upper col = some g') :
    (Cell.glyph g).merge (.glyph g') = (Cell.glyph g').merge (.glyph g) := by
  rcases edgeMark_eq_some h with rfl | ⟨-, rfl⟩ | ⟨-, rfl⟩ <;>
    rcases edgeMark_eq_some h' with rfl | ⟨-, rfl⟩ | ⟨-, rfl⟩ <;> rfl

theorem joins_edgeMark {left right left' right' col : Int} {g g' : Glyph}
    (h : edgeMark left right .lower col = some g)
    (h' : edgeMark left' right' .upper col = some g')
    (hne : ¬(col = left ∧ col = right') ∧ ¬(col = right ∧ col = left')) :
    (Cell.glyph g).Joins (.glyph g') ∧ (Cell.glyph g').Joins (.glyph g) := by
  rcases edgeMark_eq_some h with rfl | ⟨hcol, rfl⟩ | ⟨hcol, rfl⟩
  · rcases edgeMark_eq_some h' with rfl | ⟨-, rfl⟩ | ⟨-, rfl⟩
    · exact ⟨.same _, .same _⟩
    · exact ⟨.cornerOnWire (Or.inl rfl), .wireOnCorner (Or.inl rfl)⟩
    · exact ⟨.cornerOnWire (Or.inr (Or.inl rfl)), .wireOnCorner (Or.inr (Or.inl rfl))⟩
  · rcases edgeMark_eq_some h' with rfl | ⟨-, rfl⟩ | ⟨hcol', rfl⟩
    · exact ⟨.wireOnCorner (Or.inr (Or.inr (Or.inl rfl))),
        .cornerOnWire (Or.inr (Or.inr (Or.inl rfl)))⟩
    · exact ⟨.leftUp, .leftDown⟩
    · exact absurd ⟨hcol, hcol'⟩ hne.1
  · rcases edgeMark_eq_some h' with rfl | ⟨hcol', rfl⟩ | ⟨-, rfl⟩
    · exact ⟨.wireOnCorner (Or.inr (Or.inr (Or.inr rfl))),
        .cornerOnWire (Or.inr (Or.inr (Or.inr rfl)))⟩
    · exact absurd ⟨hcol, hcol'⟩ hne.2
    · exact ⟨.rightUp, .rightDown⟩

end WireDiagram
