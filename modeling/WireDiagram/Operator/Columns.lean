import WireDiagram.Fault

/-!
# Columns of operators

An operator is given its column once. Before that it has none, and asking for one is a fault, as is
placing it again.
-/

namespace WireDiagram.Operator

/-- Place an operator so that its leftmost column is `col`. -/
def place (op : Operator) (col : Int) : Except Fault Operator :=
  match op.column? with
  | some left => .error (.alreadyPlaced (.ofOperator op) (.int left))
  | none => .ok { op with column? := some col }

/-- The leftmost column of an operator. -/
def column (op : Operator) : Except Fault Int :=
  match op.column? with
  | some left => .ok left
  | none => .error (.notPlaced (.ofOperator op))

/-- The leftmost, middle and rightmost column of an operator. -/
def columns (op : Operator) : Except Fault (Int × Int × Int) :=
  op.column.map op.columnsFrom

end WireDiagram.Operator
