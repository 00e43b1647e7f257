import WireDiagram.Fault

/-!
# Nested lists as tables

A list is a table with one axis, and a list of tables of one shape is a table with one more axis. So
a nested list has as many axes as all of its lists agree on level by level; below them everything is
an entry, and if some entry is a list again, the lists do not agree and make up no table.

## Filling a region

A region is a table of cells. Whatever is put into it is repeated along the axes that it lacks and
along those where its length is one; any other axis must be as long as that of the region. A region
with fewer axes than lists are nested takes the inner lists as entries.
-/

namespace WireDiagram

namespace Value

/-! ## Axes -/

/-- The part that two lists of lengths have in common at their start. -/
def agreed : List Nat → List Nat → List Nat
  | m :: ms, n :: ns => if m = n then m :: agreed ms ns else []
  | _, _ => []

/-- The part that all lists of lengths have in common at their start. -/
def agreedAll : List (List Nat) → List Nat
  | [] => []
  | ms :: rest => rest.foldl agreed ms

/-- The lengths of the axes of a value, outermost first and not more than `limit`. -/
def axes : Nat → Value → List Nat
  | limit + 1, .list items => items.length :: agreedAll (items.map (axes limit))
  | _, _ => []

/-- What is left of a value below its first axes. -/
def entries : Nat → Value → List Value
  | count + 1, .list items => items.flatMap (entries count)
  | _, v => [v]

end Value

/-! ## Tables -/

/-- A table of values. -/
structure Table where
  /-- The lengths of the axes, outermost first. -/
  axes : List Nat
  /-- The entries, the last axis running fastest. -/
  entries : List Value

/-- No table has more axes. -/
def Table.maxAxes : Nat := 64

/-- The number of entries of a table with axes of the given lengths. -/
def Table.size (axes : List Nat) : Nat :=
  axes.foldr (· * ·) 1

namespace Value

/-- Whether a value is a list. -/
def isList : Value → Bool
  | .list _ => true
  | _ => false

/-- The table that a value is; what is no list is a table without axes. -/
def table? (v : Value) : Option Table :=
  let axes := v.axes Table.maxAxes
  let entries := v.entries axes.length
  if entries.any isList then none else some ⟨axes, entries⟩

/-! ## Filling -/

/-- The contents of `n` cells when one value is put into them: the members of a list are dealt out
or a single one repeated, and any other value goes into every cell. -/
def spread (n : Nat) : Value → Except Fault (List Value)
  | .list [v] => .ok (List.replicate n v)
  | .list vs => if vs.length = n then .ok vs else .error .badValue
  | v => .ok (List.replicate n v)

/-- The rows of a region when a value with `count` axes is put into it. The region has the axes
`dims` and one more, of length `width`, which the rows run along. -/
def spreadAlong (width : Nat) : List Nat → Nat → Value → Except Fault (List (List Value))
  | [], _, v => (v.spread width).map ([·])
  | n :: dims, count, v =>
    let repeated (w : Value) (count : Nat) : Except Fault (List (List Value)) :=
      (spreadAlong width dims count w).map fun rows ↦ (List.replicate n rows).flatten
    if count ≤ dims.length + 1 then repeated v count
    else match v with
      | .list [w] => repeated w (count - 1)
      | .list ws =>
        if ws.length = n then (ws.mapM (spreadAlong width dims (count - 1))).map List.flatten
        else .error .badValue
      | _ => .error .badValue

/-- The rows of a region with the axes `dims`, and one more of length `width`, when a value is put
into it. -/
def spreadRows (width : Nat) (dims : List Nat) (v : Value) : Except Fault (List (List Value)) :=
  spreadAlong width dims (v.axes (dims.length + 1)).length v

end Value

end WireDiagram
