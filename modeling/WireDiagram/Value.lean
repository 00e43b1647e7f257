import WireDiagram.Decimal.Layout
import WireDiagram.Glyph
import WireDiagram.Text.Listing
import WireDiagram.Text.Quoted

/-!
# Loosely typed values

What a caller hands in for wires, parameters, counts and budgets need not be of the right type, and
a refusal names the value it found. `Value` is what may be handed in, before anything is checked.

## Numbers of four kinds

Truth values, integers, doubles and glyphs compare as the numbers they stand for, exactly: an
integer is never rounded to a double first. A glyph stands for its rank.
-/

namespace WireDiagram

/-- An unchecked value. -/
inductive Value where
  /-- The absence of a value. -/
  | null
  /-- A truth value. -/
  | bool (b : Bool)
  /-- An integer of any size. -/
  | int (n : Int)
  /-- A double. -/
  | float (x : Float)
  /-- A glyph. -/
  | glyph (g : Glyph)
  /-- A text. -/
  | text (s : String)
  /-- A list of values. -/
  | list (items : List Value)

instance : Inhabited Value := ⟨.null⟩

namespace Value

/-! ## Text -/

/-- Doubles in messages have the fewest digits that read back, and an exponent outside of
`10 ^ -4 ≤ x < 10 ^ 16`. -/
def floatLayout : Layout := ⟨none, -4, 16, true⟩

mutual

/-- The text of a value inside a message. -/
def describe : Value → String
  | .null => "None"
  | .bool b => if b then "True" else "False"
  | .int n => toString n
  | .float x => floatLayout.render x
  | .glyph g => "<Glyph." ++ g.name ++ ": " ++ toString g.rank ++ ">"
  | .text s => Quoted.quote s
  | .list items => Listing.bracketed (describeAll items)

/-- The texts of the members of a list. -/
def describeAll : List Value → List String
  | [] => []
  | v :: vs => describe v :: describeAll vs

end

/-- The text of a value on its own: a text is shown as it is, a glyph by its character, and
everything else as inside a message. -/
def shown : Value → String
  | .text s => s
  | .glyph g => String.singleton g.char
  | v => v.describe

/-! ## Comparison -/

/-- The integer that an integer, a truth value or a glyph stands for. -/
def integer? : Value → Option Int
  | .bool b => some (if b then 1 else 0)
  | .int n => some n
  | .glyph g => some g.rank
  | _ => none

mutual

/-- Whether two values are equal; no number equals what is no number. -/
def same : Value → Value → Bool
  | .null, .null => true
  | .text s, .text t => s == t
  | .list xs, .list ys => sameAll xs ys
  | .float x, .float y => x == y
  | .float x, w => w.integer?.any fun n ↦ (FloatValue.ofFloat x).equalsInt n
  | v, .float y => v.integer?.any fun n ↦ (FloatValue.ofFloat y).equalsInt n
  | v, w => v.integer?.any fun m ↦ w.integer? == some m

/-- Whether two lists are equal member by member. -/
def sameAll : List Value → List Value → Bool
  | [], [] => true
  | v :: vs, w :: ws => same v w && sameAll vs ws
  | _, _ => false

end

mutual

/-- Whether one value is smaller than another. Numbers are compared with numbers, texts with texts
and lists with lists, and no other two values can be compared. -/
def isLess? : Value → Value → Option Bool
  | .text s, .text t => some (decide (s < t))
  | .list xs, .list ys => isLessAll? xs ys
  | .float x, .float y => some (decide (x < y))
  | .float x, w => w.integer?.map fun n ↦ (FloatValue.ofFloat x).isBelowInt n
  | v, .float y => v.integer?.map fun n ↦ (FloatValue.ofFloat y).isAboveInt n
  | v, w => v.integer?.bind fun m ↦ w.integer?.map fun n ↦ decide (m < n)

/-- Whether one list comes before another: the first members that differ decide, or the lengths. -/
def isLessAll? : List Value → List Value → Option Bool
  | _, [] => some false
  | [], _ :: _ => some true
  | v :: vs, w :: ws => if same v w then isLessAll? vs ws else isLess? v w

end

/-- Whether a value is at least as large as another. -/
def isAtLeast? (v w : Value) : Option Bool :=
  (w.isLess? v).map (· || v.same w)

/-- Whether an integer is larger than a value; only numbers can be compared with one. -/
def isBelow? (n : Int) : Value → Option Bool
  | .float x => some ((FloatValue.ofFloat x).isBelowInt n)
  | v => v.integer?.map fun m ↦ decide (m < n)

/-- Whether a value counts as present: zero, nothing and what is empty do not. -/
def isPresent : Value → Bool
  | .null => false
  | .bool b => b
  | .int n => n != 0
  | .float x => x != 0
  | .glyph g => g.rank != 0
  | .text s => !s.isEmpty
  | .list items => !items.isEmpty

end Value

end WireDiagram
