/-!
# Glyphs

The thirteen box-drawing marks of a text diagram. Each has a character to show, a name for messages
and a rank; the rank decides between two marks in one cell when no other rule does.
-/

namespace WireDiagram

/-- A mark of a text diagram. -/
inductive Glyph where
  /-- A piece of a wire. -/
  | wire
  /-- A piece of a vertical line: a box wall, or a line to a control. -/
  | line
  /-- A vertical line that crosses a wire. -/
  | cross
  /-- A control. -/
  | dot
  /-- A left wall that a wire ends at. -/
  | leftWall
  /-- A right wall that a wire starts from. -/
  | rightWall
  /-- An upper edge that a line comes down to. -/
  | topEdge
  /-- A lower edge that a line comes up to. -/
  | bottomEdge
  /-- The upper left corner of a box. -/
  | topLeft
  /-- The upper right corner of a box. -/
  | topRight
  /-- The lower left corner of a box. -/
  | bottomLeft
  /-- The lower right corner of a box. -/
  | bottomRight
  /-- One end of a swap. -/
  | swapMark
  deriving DecidableEq, Repr

namespace Glyph

/-- The place of a glyph in the order of ranks. -/
def rank : Glyph → Nat
  | .wire => 0
  | .line => 1
  | .cross => 2
  | .dot => 3
  | .leftWall => 4
  | .rightWall => 5
  | .topEdge => 6
  | .bottomEdge => 7
  | .topLeft => 8
  | .topRight => 9
  | .bottomLeft => 10
  | .bottomRight => 11
  | .swapMark => 12

/-- The character that shows a glyph. -/
def char : Glyph → Char
  | .wire => '─'
  | .line => '│'
  | .cross => '┼'
  | .dot => '●'
  | .leftWall => '┤'
  | .rightWall => '├'
  | .topEdge => '┴'
  | .bottomEdge => '┬'
  | .topLeft => '╭'
  | .topRight => '╮'
  | .bottomLeft => '╰'
  | .bottomRight => '╯'
  | .swapMark => '╳'

/-- The name of a glyph in messages. -/
def name : Glyph → String
  | .wire => "WIRE_LINE"
  | .line => "CONTROL_LINE"
  | .cross => "WIRE_CONTROL_CROSS"
  | .dot => "CONTROL"
  | .leftWall => "BOX_LEFT_WIRE"
  | .rightWall => "BOX_RIGHT_WIRE"
  | .topEdge => "BOX_TOP_CONTROL"
  | .bottomEdge => "BOX_BOTTOM_CONTROL"
  | .topLeft => "BOX_TOP_LEFT_CORNER"
  | .topRight => "BOX_TOP_RIGHT_CORNER"
  | .bottomLeft => "BOX_BOTTOM_LEFT_CORNER"
  | .bottomRight => "BOX_BOTTOM_RIGHT_CORNER"
  | .swapMark => "SWAP_X"

/-- All glyphs, by rank. -/
def all : List Glyph :=
  [.wire, .line, .cross, .dot, .leftWall, .rightWall, .topEdge, .bottomEdge, .topLeft, .topRight,
    .bottomLeft, .bottomRight, .swapMark]

theorem rank_lt (g : Glyph) : g.rank < 13 := by
  cases g <;> decide

theorem rank_injective {g h : Glyph} (e : g.rank = h.rank) : g = h := by
  cases g <;> cases h <;> first | rfl | exact absurd e (by decide)

theorem char_injective {g h : Glyph} (e : g.char = h.char) : g = h := by
  cases g <;> cases h <;> first | rfl | exact absurd e (by decide)

end Glyph

end WireDiagram
