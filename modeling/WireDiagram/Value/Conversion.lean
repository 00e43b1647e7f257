import WireDiagram.Decimal.Numeral
import WireDiagram.Fault

/-!
# Conversions of values

What a value is taken for where an integer, a double or a list is expected. A conversion takes a
value for what it is, or also reads a text as a numeral; the latter are named for reading.
-/

namespace WireDiagram.Value

/-! ## Lists -/

/-- The characters of a text, each a text of its own. -/
def characters (s : String) : List Value :=
  s.toList.map fun c ↦ .text (String.singleton c)

/-- The members of a list or the characters of a text; nothing else has members. -/
def members : Value → Except Fault (List Value)
  | .list items => .ok items
  | .text s => .ok (characters s)
  | _ => .error .wrongType

/-! ## Doubles -/

/-- The double that a number stands for: the nearest one, if the number is not too large. -/
def toFloat : Value → Except Fault Float
  | .float x => .ok x
  | v => match v.integer? with
    | some n => if (Float.ofInt n).isInf then .error .tooLarge else .ok (Float.ofInt n)
    | none => .error .wrongType

/-- The double that a number stands for or that a text writes. -/
def readFloat : Value → Except Fault Float
  | .text s => match Numeral.read? s with
    | some x => .ok x
    | none => .error .badValue
  | v => v.toFloat

/-! ## Integers -/

/-- The integer that an integer, a truth value or a glyph stands for. -/
def toInt (v : Value) : Except Fault Int :=
  match v.integer? with
  | some n => .ok n
  | none => .error .wrongType

theorem toInt_of_integer? {v : Value} {n : Int} (h : v.integer? = some n) : v.toInt = .ok n := by
  rw [toInt, h]

theorem toInt_int (n : Int) : (Value.int n).toInt = .ok n := rfl

/-- The integer nearest to a double in the direction of zero. -/
def truncate (x : Float) : Except Fault Int :=
  match FloatValue.ofFloat x with
  | .nan => .error .badValue
  | .infinite _ => .error .tooLarge
  | .finite b => .ok ((b.signed * Int.pow 2 b.exponent.toNat).tdiv (Int.pow 2 (-b.exponent).toNat))

/-- The integer that a number stands for, its fraction cut off, or that a text writes. -/
def readInt : Value → Except Fault Int
  | .float x => truncate x
  | .text s => match Numeral.readInt? s with
    | some n => .ok n
    | none => .error .badValue
  | v => v.toInt

end WireDiagram.Value
