import WireDiagram.Instruction.Reading

/-!
# Labels

The text inside a box: the name of the gate, its parameters in parentheses if it has any, and a
blank column on either side.
-/

namespace WireDiagram.Label

/-- Parameters have four significant digits, and an exponent outside of `10 ^ -4 ≤ x < 10 ^ 4`. -/
def paramLayout : Layout := ⟨some 4, -4, 4, false⟩

/-- A name and the texts of its parameters, without the blank columns. -/
def call (name : String) (params : List String) : String :=
  if params.isEmpty then name else name ++ "(" ++ ",".intercalate params ++ ")"

/-- A text between two blank columns. -/
def pad (s : String) : String :=
  " " ++ s ++ " "

theorem length_pad (s : String) : (pad s).length = s.length + 2 := by
  have blank : " ".length = 1 := rfl
  rw [pad, String.length_append, String.length_append, blank]
  omega

/-- The label of a gate. -/
def text (name : String) (params : List Float) : String :=
  pad (call name (params.map paramLayout.render))

/-! ## Unchecked parameters -/

/-- The text of an unchecked parameter, which must be a number. -/
def param? : Value → Except Fault String
  | .text _ => .error .badValue
  | v => v.toFloat.map paramLayout.render

/-- The label of a gate with unchecked parameters. -/
def ofValue (name : String) (params : Value) : Except Fault String :=
  if params.isPresent then do
    let texts ← (← params.members).mapM param?
    .ok (pad (call name texts))
  else .ok (pad name)

end WireDiagram.Label
