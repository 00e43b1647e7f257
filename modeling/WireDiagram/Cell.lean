import WireDiagram.Fault
import WireDiagram.Glyph

/-!
# Cells

A cell of a canvas holds a glyph or raw text. What is drawn on a canvas puts exactly one character
into a raw cell, but a caller may write a text of any length there, and it is shown as it is.

## Merging

When a mark is drawn where another one is, `Cell.merge` says what is left. Where two lines join at a
right angle the result is their junction; where no rule applies the larger rank wins, which need not
be a junction at all. Only that last resort needs a rank, and raw text has one only if it is a
single character: its code point.
-/

namespace WireDiagram

/-- The contents of a cell. -/
inductive Cell where
  /-- A mark. -/
  | glyph (g : Glyph)
  /-- Text as it is. -/
  | raw (chars : List Char)
  deriving DecidableEq, Repr

namespace Cell

/-- The raw cell of one character. -/
def ofChar (c : Char) : Cell := .raw [c]

/-- The empty cell. -/
def blank : Cell := ofChar ' '

instance : Inhabited Cell := ⟨blank⟩

/-- The characters that show a cell. -/
def chars : Cell → List Char
  | .glyph g => [g.char]
  | .raw cs => cs

/-- The characters that show a row of cells. -/
def render (cells : List Cell) : List Char :=
  cells.flatMap chars

/-- The rank of a cell: that of its glyph, or the code point of its single character. -/
def rank : Cell → Except Fault Nat
  | .glyph g => .ok g.rank
  | .raw [c] => .ok c.toNat
  | .raw _ => .error .wrongType

/-- Whether a cell shows exactly one character. -/
def IsSingle : Cell → Prop
  | .glyph _ => True
  | .raw cs => cs.length = 1

theorem isSingle_iff {x : Cell} : x.IsSingle ↔ x.chars.length = 1 := by
  cases x <;> simp [IsSingle, chars]

theorem isSingle_ofChar (c : Char) : (ofChar c).IsSingle := rfl

/-! ## The rules of merging -/

/-- What a vertical line leaves of a cell that is neither blank nor such a line: a control and a
crossing stay, a wire becomes a crossing, and everything else gives way. -/
def underLine : Cell → Cell
  | .glyph .dot => .glyph .dot
  | .glyph .cross => .glyph .cross
  | .glyph .wire => .glyph .cross
  | _ => .glyph .line

/-- What two cells leave, the first of them not of larger rank: a wire and a corner join to an edge
with a line, an upper and a lower corner of one side to a wall with a wire, and otherwise the second
one wins. -/
def join : Cell → Cell → Cell
  | .glyph .wire, .glyph .topLeft => .glyph .bottomEdge
  | .glyph .wire, .glyph .topRight => .glyph .bottomEdge
  | .glyph .wire, .glyph .bottomLeft => .glyph .topEdge
  | .glyph .wire, .glyph .bottomRight => .glyph .topEdge
  | .glyph .topLeft, .glyph .bottomLeft => .glyph .rightWall
  | .glyph .topRight, .glyph .bottomRight => .glyph .leftWall
  | _, other => other

/-- What is left in a cell when something is drawn over it. Equal cells and blanks come first, then
the vertical lines, then the two cells in the order of their ranks. -/
def merge (existing incoming : Cell) : Except Fault Cell :=
  if existing = incoming then .ok existing
  else if existing = blank then .ok incoming
  else if incoming = blank then .ok existing
  else if incoming = .glyph .line then .ok existing.underLine
  else do
    let a ← existing.rank
    let b ← incoming.rank
    if b < a then .ok (incoming.join existing) else .ok (existing.join incoming)

@[simp] theorem merge_self (x : Cell) : x.merge x = .ok x := by
  simp [merge]

@[simp] theorem merge_blank_left (x : Cell) : blank.merge x = .ok x := by
  by_cases h : blank = x
  · subst h
    simp
  · simp [merge, h]

@[simp] theorem merge_blank_right (x : Cell) : x.merge blank = .ok x := by
  by_cases h : x = blank
  · subst h
    simp
  · simp [merge, h]

end Cell

end WireDiagram
