import WireDiagram.Decimal.Digits

/-!
# Laying digits out

Which digits a number has and how they are written are separate matters: a `Layout` holds the
decisions of the second kind, and the module that writes a number says which layout it uses.
-/

namespace WireDiagram

/-- How chosen digits become text. -/
structure Layout where
  /-- The number of significant digits, or none for the fewest that read back. -/
  places : Option Nat
  /-- The least power of ten of the first digit that is written without an exponent. -/
  positionalFrom : Int
  /-- The least power of ten of the first digit that is again written with an exponent. -/
  positionalBelow : Int
  /-- Whether an integer written without an exponent ends in `.0`. -/
  marksIntegers : Bool

namespace Layout

/-! ## Finite numbers -/

/-- Digits with an exponent: one digit before the point, and at least two in the exponent. -/
def scientific (digits : List Char) (power : Int) : List Char :=
  let mantissa := match digits with
    | [] => []
    | [d] => [d]
    | d :: ds => d :: '.' :: ds
  let exponent := Nat.toDigits 10 power.natAbs
  mantissa ++ ['e', if power < 0 then '-' else '+'] ++
    List.replicate (2 - exponent.length) '0' ++ exponent

/-- Digits without an exponent; `power` is the power of ten of the first digit. -/
def positional (l : Layout) (digits : List Char) (power : Int) : List Char :=
  if power < 0 then
    '0' :: '.' :: List.replicate (-power - 1).toNat '0' ++ digits
  else if digits.length ≤ power.toNat + 1 then
    digits ++ List.replicate (power.toNat + 1 - digits.length) '0' ++
      if l.marksIntegers then ['.', '0'] else []
  else
    digits.take (power.toNat + 1) ++ '.' :: digits.drop (power.toNat + 1)

/-- The text of a magnitude. -/
def magnitude (l : Layout) (b : Binary) : List Char :=
  let d := match l.places with
    | none => Digits.shortest b
    | some n => Digits.significant n b
  let digits := Nat.toDigits 10 d.value
  let power : Int := d.exponent + digits.length - 1
  if l.positionalFrom ≤ power ∧ power < l.positionalBelow then l.positional digits power
  else scientific digits power

/-! ## All doubles -/

/-- The text of a double. -/
def render (l : Layout) (x : Float) : String :=
  match FloatValue.ofFloat x with
  | .nan => "nan"
  | .infinite negative => if negative then "-inf" else "inf"
  | .finite b => String.ofList (if b.negative then '-' :: l.magnitude b else l.magnitude b)

end Layout

end WireDiagram
