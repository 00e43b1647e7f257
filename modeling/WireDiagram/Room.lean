import WireDiagram.Fault
import WireDiagram.Position

/-!
# Room for lists and texts

A list or a text of a length that is asked for is refused for one of two reasons: the number is too
large for a length, or there is no room for anything of that length.

An entry of a list takes eight bytes, a character of the texts in question takes one, and nothing
has more bytes than the largest length. Whether the memory at hand is enough for a list or a text
that is not refused is another matter, which is left out here.
-/

namespace WireDiagram.Room

/-- No list has more entries than this. -/
def maxEntries : Nat := Nat.pow 2 60 - 1

theorem maxEntries_le : maxEntries ≤ Position.maxLength := by
  decide

/-- The refusal of a length. -/
def refusal (n : Int) : Fault :=
  if Position.IsSmall n then .noRoom else .tooLarge

/-- Check a length for which there is room up to `limit`. A length below zero stands for zero, but
it must do as a length. -/
def check (limit : Nat) (n : Int) : Except Fault Unit :=
  if Position.IsSmall n ∧ n ≤ limit then .ok () else .error (refusal n)

theorem check_natCast {limit : Nat} (hlimit : limit ≤ Position.maxLength) (n : Nat) :
    check limit n = if n ≤ limit then .ok () else .error (refusal n) := by
  have hfits : (Position.IsSmall (n : Int) ∧ (n : Int) ≤ limit) ↔ n ≤ limit := by
    rw [Position.IsSmall]
    omega
  simp only [check, hfits]

end WireDiagram.Room
