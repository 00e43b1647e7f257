/-!
# Splitting a text

A text is split at every occurrence of a separator, from left to right and without overlaps, so
there is one part more than there are occurrences, and joining the parts with the separator gives
the text back.
-/

namespace WireDiagram.Split

/-- Split what is left of a text. The first `skip` characters belong to a separator that has been
found, `part` is the part being collected and `parts` are the parts before it, each of them in
reverse. -/
def splitFrom (sep : List Char) : Nat → List Char → List (List Char) → List Char → List (List Char)
  | _, part, parts, [] => (part.reverse :: parts).reverse
  | skip + 1, part, parts, _ :: cs => splitFrom sep skip part parts cs
  | 0, part, parts, c :: cs =>
    if sep.isPrefixOf (c :: cs) then
      splitFrom sep (sep.length - 1) [] (part.reverse :: parts) cs
    else splitFrom sep 0 (c :: part) parts cs

/-- The parts of a text between the occurrences of a separator, which must not be empty. -/
def split (sep cs : List Char) : List (List Char) :=
  splitFrom sep 0 [] [] cs

/-! ## Short texts -/

theorem splitFrom_of_length_lt {sep : List Char} (part : List Char) (parts : List (List Char))
    {cs : List Char} (h : cs.length < sep.length) :
    splitFrom sep 0 part parts cs = ((part.reverse ++ cs) :: parts).reverse := by
  induction cs generalizing part with
  | nil => simp [splitFrom]
  | cons c cs ih =>
    have hfree : sep.isPrefixOf (c :: cs) = false := by
      rw [Bool.eq_false_iff]
      intro hsep
      have hle := List.IsPrefix.length_le <| List.isPrefixOf_iff_prefix.1 hsep
      omega
    rw [splitFrom, hfree, if_neg (by simp), ih (c :: part) (by simp at h; omega)]
    simp

/-- A text shorter than the separator is not split. -/
theorem split_of_length_lt {sep cs : List Char} (h : cs.length < sep.length) :
    split sep cs = [cs] := by
  simp [split, splitFrom_of_length_lt [] [] h]

end WireDiagram.Split
