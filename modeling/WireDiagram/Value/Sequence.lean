import WireDiagram.Grid
import WireDiagram.Value.Arithmetic

/-!
# Sequences of values

What is done with whole lists of values that are still to be checked: their lengths, slices of them,
their least and greatest members, and the numbers between two values.

## Ends of a slice

An end that is not given is the end of the list. An end that is given counts like any position, and
must be an integer; one beyond the list is moved to its nearer end.
-/

namespace WireDiagram.Value

/-- The number of characters of a text or of members of a list; nothing else has a length. -/
def length : Value → Except Fault Nat
  | .text s => .ok s.length
  | .list items => .ok items.length
  | _ => .error .wrongType

/-! ## Slices -/

/-- One end of a slice, which need not be given. -/
def sliceEnd : Value → Except Fault (Option Int)
  | .null => .ok none
  | v => v.toInt.map some

/-- The members from one value up to, not including, another. -/
def slice {α : Type} (xs : List α) (start stop : Value) : Except Fault (List α) := do
  let first? ← sliceEnd start
  let last? ← sliceEnd stop
  .ok (Position.slice xs (first?.getD 0) (last?.getD xs.length))

/-- The integers from one value up to, not including, another. -/
def range (start stop : Value) : Except Fault (List Value) := do
  let first ← start.toInt
  let last ← stop.toInt
  .ok ((intRange first last).map .int)

/-! ## Extrema -/

/-- The least of some values, the first of them among equals. -/
def least : List Value → Except Fault Value
  | [] => .error .emptyExtremum
  | v :: vs => vs.foldlM smaller v

/-- The greatest of some values, the first of them among equals. -/
def greatest : List Value → Except Fault Value
  | [] => .error .emptyExtremum
  | v :: vs => vs.foldlM larger v

/-! ## Integers -/

theorem slice_int {α : Type} (xs : List α) (start stop : Int) :
    slice xs (.int start) (.int stop) = .ok (Position.slice xs start stop) := rfl

theorem slice_null_int {α : Type} (xs : List α) (stop : Int) :
    slice xs .null (.int stop) = .ok (Position.slice xs 0 stop) := rfl

theorem range_int (start stop : Int) :
    range (.int start) (.int stop) = .ok ((intRange start stop).map .int) := rfl

theorem least_ofWire (gs : List Glyph) (wires : List Int) :
    least (wires.map (ofWire gs)) = match wires.min? with
      | some wire => .ok (ofWire gs wire)
      | none => .error .emptyExtremum := by
  cases wires with
  | nil => rfl
  | cons w wires =>
    simp only [List.map_cons, least, List.min?_cons']
    induction wires generalizing w with
    | nil => rfl
    | cons w' wires ih =>
      simp only [List.map_cons, List.foldlM_cons, List.foldl_cons, smaller_ofWire, bind,
        Except.bind]
      exact ih (min w w')

theorem greatest_ofWire (gs : List Glyph) (wires : List Int) :
    greatest (wires.map (ofWire gs)) = match wires.max? with
      | some wire => .ok (ofWire gs wire)
      | none => .error .emptyExtremum := by
  cases wires with
  | nil => rfl
  | cons w wires =>
    simp only [List.map_cons, greatest, List.max?_cons']
    induction wires generalizing w with
    | nil => rfl
    | cons w' wires ih =>
      simp only [List.map_cons, List.foldlM_cons, List.foldl_cons, larger_ofWire, bind,
        Except.bind]
      exact ih (max w w')

theorem least_int (ns : List Int) :
    least (ns.map .int) = match ns.min? with
      | some n => .ok (.int n)
      | none => .error .emptyExtremum :=
  least_ofWire [] ns

theorem greatest_int (ns : List Int) :
    greatest (ns.map .int) = match ns.max? with
      | some n => .ok (.int n)
      | none => .error .emptyExtremum :=
  greatest_ofWire [] ns

end WireDiagram.Value
