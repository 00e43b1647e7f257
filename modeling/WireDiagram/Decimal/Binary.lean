/-!
# Finite doubles as exact numbers

A double is read off its bits as `± mantissa · 2 ^ exponent`, so that comparing it with an integer
and choosing its decimal digits are arithmetic on integers.
-/

namespace WireDiagram

/-- A finite double, exactly `± mantissa · 2 ^ exponent`. -/
structure Binary where
  /-- Whether the sign bit is set; zero has a sign too. -/
  negative : Bool
  /-- The significand as an integer. -/
  mantissa : Nat
  /-- The power of two that the mantissa is scaled by. -/
  exponent : Int
  /-- Whether the gap to the next smaller magnitude is half the gap to the next larger one. -/
  narrowBelow : Bool
  deriving DecidableEq, Repr

/-- What a double stands for. -/
inductive FloatValue where
  /-- No number. -/
  | nan
  /-- An infinity of either sign. -/
  | infinite (negative : Bool)
  /-- A number. -/
  | finite (value : Binary)
  deriving DecidableEq, Repr

/-- Read a double off its sign bit, its eleven exponent bits and its fifty-two fraction bits. -/
def FloatValue.ofBits (bits : UInt64) : FloatValue :=
  let negative := bits.toNat / Nat.pow 2 63 == 1
  let scale : Nat := bits.toNat / Nat.pow 2 52 % Nat.pow 2 11
  let fraction : Nat := bits.toNat % Nat.pow 2 52
  if scale = 2047 then
    if fraction = 0 then .infinite negative else .nan
  else if scale = 0 then
    .finite ⟨negative, fraction, -1074, false⟩
  else
    .finite ⟨negative, Nat.pow 2 52 + fraction, (scale : Int) - 1075, fraction == 0 && scale > 1⟩

/-- What a double stands for. -/
def FloatValue.ofFloat (x : Float) : FloatValue :=
  .ofBits x.toBits

namespace Binary

/-! ## Comparison with integers -/

/-- The mantissa with its sign. -/
def signed (b : Binary) : Int :=
  if b.negative then -(b.mantissa : Int) else b.mantissa

/-- How an integer compares with a finite double, without rounding either. -/
def compareInt (n : Int) (b : Binary) : Ordering :=
  compare (n * Int.pow 2 (-b.exponent).toNat) (b.signed * Int.pow 2 b.exponent.toNat)

/-! ## Comparison with decimals -/

/-- How `a · 10 ^ i` compares with `n · 2 ^ j`. -/
def compareScaled (a : Nat) (i : Int) (n : Nat) (j : Int) : Ordering :=
  compare (a * Nat.pow 10 i.toNat * Nat.pow 2 (-j).toNat)
    (n * Nat.pow 2 j.toNat * Nat.pow 10 (-i).toNat)

/-- The magnitude divided by `10 ^ i`, as numerator and denominator. -/
def ratio (b : Binary) (i : Int) : Nat × Nat :=
  (b.mantissa * Nat.pow 2 b.exponent.toNat * Nat.pow 10 (-i).toNat,
    Nat.pow 2 (-b.exponent).toNat * Nat.pow 10 i.toNat)

/-- The least `k` with `magnitude < 10 ^ k`, for a magnitude that is not zero. The binary logarithm
fixes it up to one; the candidates are tried in ascending order. -/
def scale (b : Binary) : Int :=
  let estimate := ((b.mantissa.log2 : Int) + b.exponent) * 30103 / 100000
  let candidates := [estimate - 1, estimate, estimate + 1]
  (candidates.find? fun k ↦ compareScaled 1 k b.mantissa b.exponent == .gt).getD (estimate + 2)

end Binary

/-- Whether an integer is larger than a double; nothing is larger than what is no number. -/
def FloatValue.isBelowInt (n : Int) : FloatValue → Bool
  | .nan => false
  | .infinite negative => negative
  | .finite b => b.compareInt n == .gt

/-- Whether an integer is smaller than a double; nothing is smaller than what is no number. -/
def FloatValue.isAboveInt (n : Int) : FloatValue → Bool
  | .nan => false
  | .infinite negative => !negative
  | .finite b => b.compareInt n == .lt

/-- Whether an integer equals a double. -/
def FloatValue.equalsInt (n : Int) : FloatValue → Bool
  | .nan => false
  | .infinite _ => false
  | .finite b => b.compareInt n == .eq

end WireDiagram
