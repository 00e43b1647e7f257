import WireDiagram.Canvas

/-!
# Sketches

A drawing as data: the strokes to be made, in order. What a sketch leaves on a canvas is a fold over
its strokes, so that one can speak of the strokes of an operator without a canvas.

## Faults

A sketch may end in a fault, when a wire to be drawn next does not exist. Painting makes the strokes
before it, and a stroke that misses the canvas ends the painting in the same way; what has been
painted stays.
-/

namespace WireDiagram

/-- One cell to be written. -/
inductive Stroke where
  /-- Overwrite a cell. -/
  | put (row col : Int) (x : Cell)
  /-- Draw over a cell. -/
  | merge (row col : Int) (x : Cell)
  deriving DecidableEq, Repr

/-- The row that a stroke is on. -/
def Stroke.row : Stroke → Int
  | .put row _ _ => row
  | .merge row _ _ => row

/-- The column that a stroke is on. -/
def Stroke.col : Stroke → Int
  | .put _ col _ => col
  | .merge _ col _ => col

/-- Strokes in order, and the fault they end in, if any. -/
structure Sketch where
  /-- The strokes. -/
  strokes : List Stroke
  /-- The fault after the last stroke. -/
  fault? : Option Fault

namespace Sketch

/-- The sketch of some strokes. -/
def ofStrokes (strokes : List Stroke) : Sketch :=
  ⟨strokes, none⟩

/-- The sketch that only fails. -/
def fail (fault : Fault) : Sketch :=
  ⟨[], some fault⟩

/-- One sketch after another; nothing follows a fault. -/
def append (s t : Sketch) : Sketch :=
  match s.fault? with
  | some fault => ⟨s.strokes, some fault⟩
  | none => ⟨s.strokes ++ t.strokes, t.fault?⟩

instance : Append Sketch := ⟨append⟩

@[simp] theorem ofStrokes_append_ofStrokes (xs ys : List Stroke) :
    ofStrokes xs ++ ofStrokes ys = ofStrokes (xs ++ ys) := rfl

theorem append_assoc (s t u : Sketch) : s ++ t ++ u = s ++ (t ++ u) := by
  rcases s with ⟨xs, _ | fault⟩
  · rcases t with ⟨ys, _ | fault⟩
    · show (⟨xs ++ ys ++ u.strokes, u.fault?⟩ : Sketch) = ⟨xs ++ (ys ++ u.strokes), u.fault?⟩
      rw [List.append_assoc]
    · rfl
  · rfl

/-- The sketch that follows preparations, which may have failed. -/
def ofExcept : Except Fault Sketch → Sketch
  | .ok s => s
  | .error fault => fail fault

end Sketch

namespace Canvas

/-- Make one stroke. -/
def stroke (c : Canvas) : Stroke → Except Fault Canvas
  | .put row col x => c.set row col x
  | .merge row col x => c.merge row col x

/-- Make strokes in order, up to the first that fails. -/
def strokeAll (c : Canvas) : List Stroke → Canvas × Option Fault
  | [] => (c, none)
  | s :: strokes => match c.stroke s with
    | .ok c' => c'.strokeAll strokes
    | .error fault => (c, some fault)

theorem strokeAll_append (c : Canvas) (xs ys : List Stroke) :
    c.strokeAll (xs ++ ys) = match c.strokeAll xs with
      | (c', none) => c'.strokeAll ys
      | (c', some fault) => (c', some fault) := by
  induction xs generalizing c with
  | nil => rfl
  | cons s xs ih =>
    simp only [List.cons_append, strokeAll]
    cases c.stroke s with
    | ok c' => exact ih c'
    | error fault => rfl

/-- Paint a sketch. The canvas that is returned holds what was painted before the fault, if there is
one. -/
def paint (c : Canvas) (s : Sketch) : Canvas × Option Fault :=
  match c.strokeAll s.strokes with
  | (c', none) => (c', s.fault?)
  | (c', some fault) => (c', some fault)

end Canvas

end WireDiagram
