import WireDiagram.Value.Conversion

/-!
# Arithmetic on values

Sums, differences, products, halves and the smaller or larger of two values that are still to be
checked. A truth value or a glyph counts as an integer; where a double is involved the result is a
double, and the integer must not be too large for one.

## Ties

Of two values that compare as equal the first one is the result, so `1` and `1.0` keep their kinds.
-/

namespace WireDiagram.Value

/-- Whether a value is a number. -/
def isNumber : Value → Bool
  | .float _ => true
  | v => v.integer?.isSome

/-- The result of an operation on two numbers: an integer if both are, and otherwise a double. -/
def combine (onInts : Int → Int → Int) (onFloats : Float → Float → Float) (v w : Value) :
    Except Fault Value :=
  match v.integer?, w.integer? with
  | some m, some n => .ok (.int (onInts m n))
  | _, _ =>
    if v.isNumber && w.isNumber then do
      .ok (.float (onFloats (← v.toFloat) (← w.toFloat)))
    else .error .wrongType

/-- The sum of two numbers. -/
def plus (v w : Value) : Except Fault Value :=
  combine (· + ·) (· + ·) v w

/-- The difference of two numbers. -/
def minus (v w : Value) : Except Fault Value :=
  combine (· - ·) (· - ·) v w

/-- The product of two numbers. -/
def times (v w : Value) : Except Fault Value :=
  combine (· * ·) (· * ·) v w

/-- Half of a number, rounded down; there is no half of an infinite double. -/
def halved : Value → Except Fault Value
  | .float x => .ok (.float (if x.isFinite then (x / 2).floor else 0 / 0))
  | v => v.toInt.map fun n ↦ .int (n / 2)

/-- The smaller of two values. -/
def smaller (v w : Value) : Except Fault Value :=
  match w.isLess? v with
  | some true => .ok w
  | some false => .ok v
  | none => .error .wrongType

/-- The larger of two values. -/
def larger (v w : Value) : Except Fault Value :=
  match v.isLess? w with
  | some true => .ok w
  | some false => .ok v
  | none => .error .wrongType

/-- Whether a value is at least as large as an integer. -/
def reaches (v : Value) (n : Int) : Except Fault Bool :=
  match v.isAtLeast? (.int n) with
  | some b => .ok b
  | none => .error .wrongType

/-- Whether a value lies between zero and a bound that it must not reach. -/
def isWithin (v : Value) (bound : Nat) : Except Fault Bool := do
  .ok ((← v.reaches 0) && v.isLess? (.int bound) == some true)

/-! ## Integers -/

theorem plus_int (m n : Int) : (Value.int m).plus (.int n) = .ok (.int (m + n)) := rfl

theorem minus_int (m n : Int) : (Value.int m).minus (.int n) = .ok (.int (m - n)) := rfl

theorem halved_int (n : Int) : (Value.int n).halved = .ok (.int (n / 2)) := rfl

theorem isLess?_of_integer? {v w : Value} {m n : Int} (hv : v.integer? = some m)
    (hw : w.integer? = some n) : v.isLess? w = some (decide (m < n)) := by
  cases v <;> simp only [integer?, reduceCtorEq] at hv <;>
    cases w <;> simp only [integer?, reduceCtorEq] at hw <;>
      simp_all [isLess?, integer?]

theorem isLess?_int (m n : Int) : (Value.int m).isLess? (.int n) = some (decide (m < n)) :=
  isLess?_of_integer? rfl rfl

theorem plus_of_integer? {v w : Value} {m n : Int} (hv : v.integer? = some m)
    (hw : w.integer? = some n) : v.plus w = .ok (.int (m + n)) := by
  simp only [plus, combine, hv, hw]

theorem same_int (m n : Int) : (Value.int m).same (.int n) = decide (m = n) := by
  rw [Bool.eq_iff_iff]
  simpa [same, integer?] using eq_comm

theorem smaller_ofWire (gs : List Glyph) (m n : Int) :
    (ofWire gs m).smaller (ofWire gs n) = .ok (ofWire gs (min m n)) := by
  unfold smaller
  rw [isLess?_of_integer? (integer?_ofWire gs n) (integer?_ofWire gs m)]
  by_cases h : n < m
  · simp [h, Int.min_eq_right (by omega : n ≤ m)]
  · simp [h, Int.min_eq_left (by omega : m ≤ n)]

theorem larger_ofWire (gs : List Glyph) (m n : Int) :
    (ofWire gs m).larger (ofWire gs n) = .ok (ofWire gs (max m n)) := by
  unfold larger
  rw [isLess?_of_integer? (integer?_ofWire gs m) (integer?_ofWire gs n)]
  by_cases h : m < n
  · simp [h, Int.max_eq_right (by omega : m ≤ n)]
  · simp [h, Int.max_eq_left (by omega : n ≤ m)]

theorem isAtLeast?_int (m n : Int) :
    (Value.int m).isAtLeast? (.int n) = some (decide (n ≤ m)) := by
  simp only [isAtLeast?, isLess?_int, same_int, Option.map_some, Option.some.injEq]
  rw [Bool.eq_iff_iff]
  simp only [Bool.or_eq_true, decide_eq_true_eq]
  omega

theorem reaches_int (m n : Int) : (Value.int m).reaches n = .ok (decide (n ≤ m)) := by
  simp only [reaches, isAtLeast?_int]

theorem isWithin_int (m : Int) (bound : Nat) :
    (Value.int m).isWithin bound = .ok (decide (0 ≤ m ∧ m < bound)) := by
  simp only [isWithin, reaches_int, isLess?_int, bind, Except.bind, Except.ok.injEq]
  rw [Bool.eq_iff_iff]
  simp

end WireDiagram.Value
