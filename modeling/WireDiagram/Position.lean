/-!
# Positions counted from either end

A list of length `n` is addressed by integers: `0, 1, …` count from its start, `-1, -2, …` from its
end. A position is either resolved, which fails outside the list, or clamped, which never fails and
is what the two ends of a slice are.

## Words

A position is a word whose first bit is a sign. Some numbers have as many bits but no sign, and so
are too large for a position; the word of such a number is that of a position below zero.
-/

namespace WireDiagram.Position

/-- No list and no text is longer than this. -/
def maxLength : Nat := Nat.pow 2 63 - 1

/-- Whether a number is small enough to be a position or a length. A length below zero stands for
zero, but it must be small too. -/
abbrev IsSmall (n : Int) : Prop :=
  -(maxLength : Int) - 1 ≤ n ∧ n ≤ maxLength

/-! ## Words -/

/-- Whether a number is too large for a position, but not for a word without a sign. -/
abbrev IsUnsigned (n : Int) : Prop :=
  (maxLength : Int) < n ∧ n ≤ 2 * maxLength + 1

/-- The position with the word of a number. -/
def ofWord (n : Int) : Int :=
  n.bmod (2 * (maxLength + 1))

/-! ## One position -/

/-- The index that position `i` has in a list of length `n`, if it has one. -/
def resolve (n : Nat) (i : Int) : Option Nat :=
  if 0 ≤ i then
    if i < n then some i.toNat else none
  else
    if 0 ≤ i + n then some (i + n).toNat else none

/-- The element at position `i`, if there is one. -/
def get? {α : Type} (xs : List α) (i : Int) : Option α :=
  (resolve xs.length i).bind fun k ↦ xs[k]?

theorem resolve_natCast {n k : Nat} (h : k < n) : resolve n (k : Int) = some k := by
  simp [resolve, h]

theorem get?_natCast {α : Type} {xs : List α} {k : Nat} (h : k < xs.length) :
    get? xs (k : Int) = some xs[k] := by
  simp [get?, resolve_natCast h, h]

theorem get?_map {α β : Type} (f : α → β) (xs : List α) (i : Int) :
    get? (xs.map f) i = (get? xs i).map f := by
  simp only [get?, List.length_map]
  cases resolve xs.length i <;> simp

/-! ## Slices -/

/-- The index at which one end of a slice falls: a position outside moves to the nearer end. -/
def clamp (n : Nat) (i : Int) : Nat :=
  if 0 ≤ i then min i.toNat n else (i + n).toNat

/-- The elements from position `start` up to, not including, position `stop`. -/
def slice {α : Type} (xs : List α) (start stop : Int) : List α :=
  (xs.take (clamp xs.length stop)).drop (clamp xs.length start)

theorem clamp_le (n : Nat) (i : Int) : clamp n i ≤ n := by
  unfold clamp
  split <;> omega

theorem clamp_natCast {n k : Nat} (h : k ≤ n) : clamp n (k : Int) = k := by
  simp [clamp, h]

theorem slice_natCast {α : Type} {xs : List α} {a b : Nat} (ha : a ≤ xs.length)
    (hb : b ≤ xs.length) : slice xs (a : Int) (b : Int) = (xs.take b).drop a := by
  rw [slice, clamp_natCast ha, clamp_natCast hb]

theorem slice_map {α β : Type} (f : α → β) (xs : List α) (start stop : Int) :
    slice (xs.map f) start stop = (slice xs start stop).map f := by
  simp [slice]

theorem mem_of_mem_slice {α : Type} {xs : List α} {start stop : Int} {a : α}
    (h : a ∈ slice xs start stop) : a ∈ xs :=
  List.mem_of_mem_take (List.mem_of_mem_drop h)

end WireDiagram.Position
