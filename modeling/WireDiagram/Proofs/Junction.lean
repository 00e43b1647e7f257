import WireDiagram.Cell

/-!
# Junctions

What a mark shows is a bundle of arms: pieces of line that leave the middle of the cell to the left,
to the right, up and down. A merge is geometrically right when the result has exactly the arms of
both operands, and the rules of merging do not promise that: a vertical line takes the place of most
of what it meets, and where no rule applies the larger rank wins.

`Cell.Joins` lists the pairs of cells for which nothing of the kind happens. The main statement of
this file, `Cell.Joins.exists_merge`, is that merging such a pair is merging its arms; that a
drawing only ever merges such pairs is shown where drawings are.

## The rule in charge

`Cell.merge` is a cascade of tests, and the rules that lose arms are its last branches. `Cell.rule`
names the branch that decides a pair. `Cell.merge_of_rule_replace` and `Cell.merge_of_rule_rank` say
what these last two rules leave, so that "the ranks decide" is a statement about the merge and not
only about a list of pairs.
-/

namespace WireDiagram

/-! ## Arms -/

/-- The pieces of line that leave the middle of a cell. -/
structure Arms where
  /-- A piece to the left. -/
  left : Bool
  /-- A piece to the right. -/
  right : Bool
  /-- A piece upwards. -/
  up : Bool
  /-- A piece downwards. -/
  down : Bool
  deriving DecidableEq, Repr

/-- The arms of two cells together. -/
def Arms.union (a b : Arms) : Arms :=
  ⟨a.left || b.left, a.right || b.right, a.up || b.up, a.down || b.down⟩

/-- No arms at all. -/
def Arms.none : Arms := ⟨false, false, false, false⟩

@[simp] theorem Arms.none_union (a : Arms) : Arms.none.union a = a := by
  simp [Arms.union, Arms.none]

@[simp] theorem Arms.union_self (a : Arms) : a.union a = a := by
  simp [Arms.union]

/-- The arms of a mark. A dot and a swap mark are no pieces of line. -/
def Glyph.arms : Glyph → Arms
  | .wire => ⟨true, true, false, false⟩
  | .line => ⟨false, false, true, true⟩
  | .cross => ⟨true, true, true, true⟩
  | .dot => .none
  | .leftWall => ⟨true, false, true, true⟩
  | .rightWall => ⟨false, true, true, true⟩
  | .topEdge => ⟨true, true, true, false⟩
  | .bottomEdge => ⟨true, true, false, true⟩
  | .topLeft => ⟨false, true, false, true⟩
  | .topRight => ⟨true, false, false, true⟩
  | .bottomLeft => ⟨false, true, true, false⟩
  | .bottomRight => ⟨true, false, true, false⟩
  | .swapMark => .none

/-- Whether a mark is a corner of a box. -/
def Glyph.IsCorner (g : Glyph) : Prop :=
  g = .topLeft ∨ g = .topRight ∨ g = .bottomLeft ∨ g = .bottomRight

/-- Whether a mark is one that a merge may make of two others. -/
def Glyph.IsJunction (g : Glyph) : Prop :=
  g = .cross ∨ g = .topEdge ∨ g = .bottomEdge ∨ g = .leftWall ∨ g = .rightWall

instance : DecidablePred Glyph.IsJunction := fun _ ↦ inferInstanceAs (Decidable (_ ∨ _))

namespace Cell

/-- The arms of a cell; text has none. -/
def arms : Cell → Arms
  | .glyph g => g.arms
  | .raw _ => .none

@[simp] theorem arms_blank : blank.arms = .none := rfl

/-! ## The rule in charge -/

/-- The rules of merging. -/
inductive Rule where
  /-- The cells are equal. -/
  | equal
  /-- One of the cells is blank. -/
  | blank
  /-- A vertical line leaves a dot or a crossing as it is. -/
  | keep
  /-- A vertical line turns a wire into a crossing. -/
  | cross
  /-- A vertical line takes the place of anything else. -/
  | replace
  /-- A wire and a corner become an edge with a line. -/
  | edge
  /-- An upper and a lower corner of one side become a wall with a wire. -/
  | wall
  /-- The larger rank wins. -/
  | rank
  /-- The ranks are asked for, and one of the cells has none. -/
  | unranked
  deriving DecidableEq, Repr

/-- The rule for what a vertical line is drawn over. -/
def lineRule : Cell → Rule
  | .glyph .dot => .keep
  | .glyph .cross => .keep
  | .glyph .wire => .cross
  | _ => .replace

/-- The rule for two cells, the first of them not of larger rank. -/
def joinRule : Cell → Cell → Rule
  | .glyph .wire, .glyph .topLeft => .edge
  | .glyph .wire, .glyph .topRight => .edge
  | .glyph .wire, .glyph .bottomLeft => .edge
  | .glyph .wire, .glyph .bottomRight => .edge
  | .glyph .topLeft, .glyph .bottomLeft => .wall
  | .glyph .topRight, .glyph .bottomRight => .wall
  | _, _ => .rank

/-- The rule that decides a merge. -/
def rule (existing incoming : Cell) : Rule :=
  if existing = incoming then .equal
  else if existing = Cell.blank then .blank
  else if incoming = Cell.blank then .blank
  else if incoming = .glyph .line then existing.lineRule
  else match existing.rank, incoming.rank with
    | .ok a, .ok b => if b < a then incoming.joinRule existing else existing.joinRule incoming
    | _, _ => .unranked

theorem underLine_of_lineRule {x : Cell} (h : x.lineRule = .replace) :
    x.underLine = .glyph .line := by
  unfold lineRule at h
  split at h
  · contradiction
  · contradiction
  · contradiction
  · simp_all [underLine]

theorem lineRule_ne_rank (x : Cell) : x.lineRule ≠ .rank := by
  unfold lineRule
  split <;> decide

theorem join_of_joinRule {x y : Cell} (h : x.joinRule y = .rank) : x.join y = y := by
  unfold joinRule at h
  split at h
  case h_7 => simp_all [join]
  all_goals contradiction

theorem joinRule_ne_replace (x y : Cell) : x.joinRule y ≠ .replace := by
  unfold joinRule
  split <;> decide

/-- A vertical line that takes the place of something is all that is left. -/
theorem merge_of_rule_replace {x y : Cell} (h : x.rule y = .replace) :
    x.merge y = .ok (.glyph .line) := by
  unfold rule at h
  split at h
  · contradiction
  split at h
  · contradiction
  split at h
  · contradiction
  rename_i hxy hx hy
  split at h
  · rename_i hl
    rw [merge, if_neg hxy, if_neg hx, if_neg hy, if_pos hl, underLine_of_lineRule h]
  · split at h
    · split at h
      · exact absurd h (joinRule_ne_replace y x)
      · exact absurd h (joinRule_ne_replace x y)
    · contradiction

theorem merge_of_rank {x y : Cell} {a b : Nat} (hxy : x ≠ y) (hx : x ≠ Cell.blank)
    (hy : y ≠ Cell.blank) (hl : y ≠ .glyph .line) (ha : x.rank = .ok a) (hb : y.rank = .ok b) :
    x.merge y = .ok (if b < a then y.join x else x.join y) := by
  rw [merge, if_neg hxy, if_neg hx, if_neg hy, if_neg hl, ha, hb]
  show (if b < a then Except.ok (y.join x) else Except.ok (x.join y)) = _
  split <;> rfl

/-- Where the ranks decide, one of the two cells is all that is left. -/
theorem merge_of_rule_rank {x y : Cell} (h : x.rule y = .rank) :
    x.merge y = .ok x ∨ x.merge y = .ok y := by
  unfold rule at h
  split at h
  · contradiction
  split at h
  · contradiction
  split at h
  · contradiction
  rename_i hxy hx hy
  split at h
  · exact absurd h (lineRule_ne_rank x)
  rename_i hl
  split at h
  · rename_i a b ha hb
    rw [merge_of_rank hxy hx hy hl ha hb]
    by_cases hba : b < a
    · rw [if_pos hba] at h ⊢
      exact Or.inl (congrArg Except.ok (join_of_joinRule h))
    · rw [if_neg hba] at h ⊢
      exact Or.inr (congrArg Except.ok (join_of_joinRule h))
  · contradiction

/-! ## Pairs that join -/

/-- What is there, and what is drawn over it, when a merge is a junction. -/
inductive Joins : Cell → Cell → Prop
  /-- Anything over a blank. -/
  | blank (y : Cell) : Joins Cell.blank y
  /-- A cell over its equal. -/
  | same (x : Cell) : Joins x x
  /-- A vertical line over a wire. -/
  | lineOnWire : Joins (.glyph .wire) (.glyph .line)
  /-- A vertical line over a crossing. -/
  | lineOnCross : Joins (.glyph .cross) (.glyph .line)
  /-- A vertical line over a dot. -/
  | lineOnDot : Joins (.glyph .dot) (.glyph .line)
  /-- A corner over a wire. -/
  | cornerOnWire {g : Glyph} (h : g.IsCorner) : Joins (.glyph .wire) (.glyph g)
  /-- A wire over a corner. -/
  | wireOnCorner {g : Glyph} (h : g.IsCorner) : Joins (.glyph g) (.glyph .wire)
  /-- The lower corner over the upper one, on the left. -/
  | leftDown : Joins (.glyph .topLeft) (.glyph .bottomLeft)
  /-- The upper corner over the lower one, on the left. -/
  | leftUp : Joins (.glyph .bottomLeft) (.glyph .topLeft)
  /-- The lower corner over the upper one, on the right. -/
  | rightDown : Joins (.glyph .topRight) (.glyph .bottomRight)
  /-- The upper corner over the lower one, on the right. -/
  | rightUp : Joins (.glyph .bottomRight) (.glyph .topRight)

/-- Neither rule that loses arms is ever in charge of a pair that joins. -/
theorem Joins.rule_ne {x y : Cell} (h : Joins x y) : x.rule y ≠ .replace ∧ x.rule y ≠ .rank := by
  cases h with
  | blank y => by_cases hy : Cell.blank = y <;> simp [rule, hy]
  | same x => simp [rule]
  | cornerOnWire h => rcases h with rfl | rfl | rfl | rfl <;> decide
  | wireOnCorner h => rcases h with rfl | rfl | rfl | rfl <;> decide
  | lineOnWire | lineOnCross | lineOnDot | leftDown | leftUp | rightDown | rightUp => decide

/-- **A junction has the arms of both cells.** Only a dot hides the line that is drawn over it. -/
theorem Joins.exists_merge {x y : Cell} (h : Joins x y) :
    ∃ z, x.merge y = .ok z ∧
      if x = .glyph .dot then z = .glyph .dot else z.arms = x.arms.union y.arms := by
  cases h with
  | blank y => exact ⟨y, merge_blank_left y, by rw [if_neg (by decide)]; simp⟩
  | same x =>
    refine ⟨x, merge_self x, ?_⟩
    by_cases hx : x = .glyph .dot
    · rw [if_pos hx, hx]
    · rw [if_neg hx, Arms.union_self]
  | cornerOnWire h => rcases h with rfl | rfl | rfl | rfl <;> exact ⟨_, rfl, by decide⟩
  | wireOnCorner h => rcases h with rfl | rfl | rfl | rfl <;> exact ⟨_, rfl, by decide⟩
  | lineOnWire | lineOnCross | lineOnDot | leftDown | leftUp | rightDown | rightUp =>
    exact ⟨_, rfl, by decide⟩

end Cell

end WireDiagram
