import WireDiagram.Decimal.Binary

/-!
# Choosing decimal digits

A double is given digits in one of two ways: the fewest that still read back as the same double, or
a set number of significant ones. Both work on the exact value, so no rounding happens twice.

## Reading back

The reals that round to a double form an interval that reaches half-way to either neighbour; its
ends belong to it when the mantissa is even. If some decimal of `n` digits lies in the interval,
then so does one of the two that enclose the double, so only those two are tried.
-/

namespace WireDiagram

/-- The number `value · 10 ^ exponent`. -/
structure Digits where
  /-- The digits, read as one integer. -/
  value : Nat
  /-- The power of ten of the last digit. -/
  exponent : Int
  deriving DecidableEq, Repr

namespace Digits

/-- The same number with at most `fuel` trailing zeros moved into the exponent. -/
def stripUpTo : Nat → Digits → Digits
  | 0, d => d
  | fuel + 1, d =>
    if d.value ≠ 0 ∧ d.value % 10 = 0 then stripUpTo fuel ⟨d.value / 10, d.exponent + 1⟩ else d

/-- The same number without trailing zeros, for a number of less than thirty digits. -/
def strip (d : Digits) : Digits :=
  stripUpTo 30 d

/-! ## The fewest digits -/

/-- Whether a decimal lies among the reals that round to the magnitude of `b`. -/
def readsBack (b : Binary) (d : Digits) : Bool :=
  let low := if b.narrowBelow then 4 * b.mantissa - 1 else 4 * b.mantissa - 2
  let high := 4 * b.mantissa + 2
  let closed := b.mantissa % 2 == 0
  let below := Binary.compareScaled d.value d.exponent low (b.exponent - 2)
  let above := Binary.compareScaled d.value d.exponent high (b.exponent - 2)
  (below == .gt || closed && below == .eq) && (above == .lt || closed && above == .eq)

/-- The decimal with last digit at `10 ^ i` that reads back and is nearest; of two equally near ones
the even one. -/
def onGrid? (b : Binary) (i : Int) : Option Digits :=
  let (num, den) := b.ratio i
  let down : Digits := ⟨num / den, i⟩
  let up : Digits := ⟨num / den + 1, i⟩
  let twiceRest := 2 * (num % den)
  let upIsNearer := twiceRest > den || twiceRest == den && down.value % 2 == 1
  match readsBack b down, readsBack b up with
  | true, true => some (if upIsNearer then up else down)
  | true, false => some down
  | false, true => some up
  | false, false => none

/-- The fewest digits that read back; seventeen always do. -/
def shortest (b : Binary) : Digits :=
  if b.mantissa = 0 then ⟨0, 0⟩
  else
    let k := b.scale
    -- The grid of `n + 1` digits has its last digit at `10 ^ (k - (n + 1))`.
    let grids := (List.range 17).map fun (n : Nat) ↦ k - (n + 1)
    ((grids.findSome? (onGrid? b)).getD ⟨(b.ratio (k - 17)).1 / (b.ratio (k - 17)).2, k - 17⟩).strip

/-! ## A set number of digits -/

/-- A quotient rounded to the nearest integer, a half to the even one. -/
def roundDiv (num den : Nat) : Nat :=
  let twiceRest := 2 * (num % den)
  if twiceRest > den || twiceRest == den && num / den % 2 == 1 then num / den + 1 else num / den

/-- The magnitude rounded to `places` significant digits, without trailing zeros. -/
def significant (places : Nat) (b : Binary) : Digits :=
  if b.mantissa = 0 then ⟨0, 0⟩
  else
    let i := b.scale - places
    (⟨roundDiv (b.ratio i).1 (b.ratio i).2, i⟩ : Digits).strip

end Digits

end WireDiagram
