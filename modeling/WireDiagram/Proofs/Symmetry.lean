import WireDiagram.Proofs.Painting

/-!
# Which cell is drawn last

What a merge leaves of two single cells may depend on which of them is drawn over the other one, and
these are all the pairs for which it does (`Cell.merge_ne_iff`). There are two kinds of them
(`Cell.Clashes`): a vertical line and something that gives way to it, and a mark and a character
whose code point is the rank of the mark.

## Ranks of characters

Ranks are meant to put every character after every mark, and control characters break that: their
code points are the ranks of marks, and a tie goes to the cell that is drawn last. The character
with code point zero comes even before the vertical line, so the line wins whichever of them is
drawn last. This is the one pair of the first kind that is left out.
-/

namespace WireDiagram

namespace Cell

/-- The raw cell of the character with code point zero. -/
def nul : Cell := ofChar '\x00'

/-- Whether a vertical line over a cell replaces or crosses it. A dot and a crossing stay, and where
a blank is nothing has to give way. -/
def GivesWay (x : Cell) : Prop :=
  x ≠ .glyph .line ∧ x ≠ Cell.blank ∧ x ≠ .glyph .cross ∧ x ≠ .glyph .dot

/-- Whether the first cell is a mark and the second one a character of its rank. -/
def Ties (x y : Cell) : Prop :=
  ∃ g c, x = .glyph g ∧ y = .ofChar c ∧ c.toNat = g.rank

/-- Whether one of two cells is a vertical line that the other one gives way to, or a mark that the
other one ties with. -/
def Clashes (x y : Cell) : Prop :=
  (x = .glyph .line ∧ y.GivesWay ∨ y = .glyph .line ∧ x.GivesWay) ∨ x.Ties y ∨ y.Ties x

/-- Whether two cells are a vertical line and the character with code point zero. -/
def IsLineAndNul (x y : Cell) : Prop :=
  x = .glyph .line ∧ y = nul ∨ y = .glyph .line ∧ x = nul

variable {x y : Cell}

theorem clashes_comm : x.Clashes y ↔ y.Clashes x :=
  or_congr or_comm or_comm

theorem isLineAndNul_comm : x.IsLineAndNul y ↔ y.IsLineAndNul x :=
  or_comm

/-! ## Ranks -/

theorem Ties.rank_eq (h : x.Ties y) : x.rank = y.rank := by
  obtain ⟨g, c, rfl, rfl, hrank⟩ := h
  exact congrArg Except.ok hrank.symm

theorem Ties.ne (h : x.Ties y) : x ≠ y := by
  obtain ⟨g, c, rfl, rfl, -⟩ := h
  exact Cell.noConfusion

/-- A character that ties with a mark is a control character. -/
theorem Ties.exists_lt (h : x.Ties y) : ∃ c, y = .ofChar c ∧ c.toNat < 13 := by
  obtain ⟨g, c, -, hy, hrank⟩ := h
  exact ⟨c, hy, hrank ▸ g.rank_lt⟩

theorem Ties.ne_blank (h : x.Ties y) : x ≠ Cell.blank ∧ y ≠ Cell.blank := by
  constructor
  · obtain ⟨g, c, rfl, -, -⟩ := h
    exact Cell.noConfusion
  · obtain ⟨c, rfl, hlt⟩ := h.exists_lt
    intro hblank
    obtain rfl : c = ' ' := by simpa [ofChar, blank] using hblank
    exact absurd hlt (by decide)

theorem Ties.join_eq (h : x.Ties y) : x.join y = y ∧ y.join x = x := by
  obtain ⟨g, c, rfl, rfl, -⟩ := h
  exact ⟨by cases g <;> rfl, rfl⟩

theorem not_ties_glyph (g : Glyph) : ¬x.Ties (.glyph g) := by
  rintro ⟨g', c, -, hc, -⟩
  exact Cell.noConfusion hc

theorem ties_of_rank_eq (hx : x.IsSingle) (hy : y.IsSingle) (hne : x ≠ y)
    (h : x.rank = y.rank) : x.Ties y ∨ y.Ties x := by
  rcases isSingle_cases hx with ⟨g, rfl⟩ | ⟨c, rfl⟩ <;>
    rcases isSingle_cases hy with ⟨g', rfl⟩ | ⟨c', rfl⟩
  · exact absurd (congrArg Cell.glyph (Glyph.rank_injective (Except.ok.inj h))) hne
  · exact Or.inl ⟨g, c', rfl, rfl, (Except.ok.inj h).symm⟩
  · exact Or.inr ⟨g', c, rfl, rfl, Except.ok.inj h⟩
  · exact absurd (congrArg Cell.ofChar (Char.toNat_inj.mp (Except.ok.inj h))) hne

theorem eq_of_rank_eq_zero (hx : x.IsSingle) (h : x.rank = .ok 0) : x = .glyph .wire ∨ x = nul := by
  rcases isSingle_cases hx with ⟨g, rfl⟩ | ⟨c, rfl⟩
  · exact Or.inl (congrArg Cell.glyph (Glyph.rank_injective (Except.ok.inj h)))
  · exact Or.inr (congrArg Cell.ofChar (Char.toNat_inj.mp (Except.ok.inj h)))

/-! ## A vertical line and another cell -/

theorem join_line (x : Cell) : x.join (.glyph .line) = .glyph .line := by
  unfold join
  split <;> first | rfl | simp_all

theorem underLine_of_givesWay (h : x.GivesWay) (hne : x ≠ .glyph .wire) :
    x.underLine = .glyph .line := by
  unfold underLine
  split
  · exact absurd rfl h.2.2.2
  · exact absurd rfl h.2.2.1
  · exact absurd rfl hne
  · rfl

/-- A vertical line over a cell and the cell over the line leave different cells exactly if the cell
gives way to the line and does not come before it. -/
theorem merge_line_ne_iff (hx : x.IsSingle) :
    x.merge (.glyph .line) ≠ (Cell.glyph .line).merge x ↔ x.GivesWay ∧ x ≠ nul := by
  by_cases hway : x.GivesWay
  · have ⟨hline, hblank, _, _⟩ := hway
    obtain ⟨n, hn⟩ := exists_rank hx
    have hover : x.merge (.glyph .line) = .ok x.underLine := by
      rw [merge, if_neg hline, if_neg hblank, if_neg (by decide), if_pos rfl]
    have hunder : (Cell.glyph .line).merge x = .ok (if n < 1 then .glyph .line else x) := by
      rw [merge_of_rank (Ne.symm hline) (by decide) hblank hline rfl hn, join_line]
      rfl
    rw [hover, hunder, Ne, Except.ok.injEq]
    by_cases hzero : n < 1
    · obtain rfl : n = 0 := by omega
      -- A wire becomes a crossing under the line, and the other cell of rank zero is lost.
      rcases eq_of_rank_eq_zero hx hn with rfl | rfl
      · exact iff_of_true (by decide) ⟨hway, by decide⟩
      · exact iff_of_false (by decide) fun h ↦ h.2 rfl
    · have hwire : x ≠ .glyph .wire := by
        rintro rfl
        exact hzero (Except.ok.inj hn ▸ Nat.zero_lt_one)
      have hnul : x ≠ nul := by
        rintro rfl
        exact hzero (Except.ok.inj hn ▸ Nat.zero_lt_one)
      rw [underLine_of_givesWay hway hwire, if_neg hzero]
      exact iff_of_true hline.symm ⟨hway, hnul⟩
  · refine iff_of_false (fun hne ↦ hne ?_) fun h ↦ hway h.1
    simp only [GivesWay, Classical.not_and_iff_not_or_not, Classical.not_not] at hway
    rcases hway with rfl | rfl | rfl | rfl <;> rfl

/-! ## Other cells -/

theorem merge_ne_iff_of_ne_line (hx : x.IsSingle) (hy : y.IsSingle) (hxl : x ≠ .glyph .line)
    (hyl : y ≠ .glyph .line) : x.merge y ≠ y.merge x ↔ x.Ties y ∨ y.Ties x := by
  by_cases hxy : x = y
  · subst hxy
    exact iff_of_false (fun hne ↦ hne rfl) fun h ↦ (h.elim id id).ne rfl
  by_cases hblank : x = Cell.blank ∨ y = Cell.blank
  · refine iff_of_false (fun hne ↦ hne ?_) fun hties ↦ ?_
    · rcases hblank with rfl | rfl
      · rw [merge_blank_left, merge_blank_right]
      · rw [merge_blank_left, merge_blank_right]
    · have hne : x ≠ Cell.blank ∧ y ≠ Cell.blank :=
        hties.elim Ties.ne_blank fun h ↦ h.ne_blank.symm
      exact hblank.elim hne.1 hne.2
  obtain ⟨hxb, hyb⟩ := not_or.mp hblank
  obtain ⟨a, ha⟩ := exists_rank hx
  obtain ⟨b, hb⟩ := exists_rank hy
  rw [merge_of_rank hxy hxb hyb hyl ha hb, merge_of_rank (Ne.symm hxy) hyb hxb hxl hb ha, Ne,
    Except.ok.injEq]
  by_cases hab : a = b
  · -- The cell that is drawn last wins.
    subst hab
    rw [if_neg (Nat.lt_irrefl a), if_neg (Nat.lt_irrefl a)]
    have hties := ties_of_rank_eq hx hy hxy (ha.trans hb.symm)
    refine iff_of_true ?_ hties
    rcases hties with h | h
    · rw [h.join_eq.1, h.join_eq.2]
      exact Ne.symm hxy
    · rw [h.join_eq.1, h.join_eq.2]
      exact Ne.symm hxy
  · refine iff_of_false (fun hne ↦ hne ?_) fun hties ↦ hab ?_
    · split <;> split <;> first | rfl | omega
    · have hrank : x.rank = y.rank := hties.elim Ties.rank_eq fun h ↦ h.rank_eq.symm
      rw [ha, hb] at hrank
      exact Except.ok.inj hrank

/-! ## All pairs -/

/-- A vertical line clashes with nothing but what gives way to it. -/
theorem clashes_line_iff : x.Clashes (.glyph .line) ↔ x.GivesWay := by
  constructor
  · rintro ((⟨-, hway⟩ | ⟨-, hway⟩) | hties | hties)
    · exact absurd rfl hway.1
    · exact hway
    · exact absurd hties (not_ties_glyph _)
    · have hblank := hties.ne_blank.2
      obtain ⟨c, rfl, -⟩ := hties.exists_lt
      exact ⟨Cell.noConfusion, hblank, Cell.noConfusion, Cell.noConfusion⟩
  · exact fun hway ↦ Or.inl (Or.inr ⟨rfl, hway⟩)

theorem isLineAndNul_line_iff : x.IsLineAndNul (.glyph .line) ↔ x = nul := by
  constructor
  · rintro (⟨-, hnul⟩ | ⟨-, hnul⟩)
    · exact absurd hnul (by decide)
    · exact hnul
  · exact fun hnul ↦ Or.inr ⟨rfl, hnul⟩

/-- **The pairs of cells that merge differently in the two orders.** -/
theorem merge_ne_iff (hx : x.IsSingle) (hy : y.IsSingle) :
    x.merge y ≠ y.merge x ↔ x.Clashes y ∧ ¬x.IsLineAndNul y := by
  by_cases hyl : y = .glyph .line
  · subst hyl
    rw [merge_line_ne_iff hx, clashes_line_iff, isLineAndNul_line_iff]
  by_cases hxl : x = .glyph .line
  · subst hxl
    rw [ne_comm, merge_line_ne_iff hy, clashes_comm, isLineAndNul_comm, clashes_line_iff,
      isLineAndNul_line_iff]
  · rw [merge_ne_iff_of_ne_line hx hy hxl hyl]
    simp only [Clashes, IsLineAndNul, hxl, hyl, false_and, false_or, not_false_eq_true, and_true]

/-- What is known of two cells that are drawn over each other. -/
structure MergeLaws (x y : Cell) : Prop where
  /-- A merge leaves one of the two cells, or a junction. -/
  exists_merge : ∃ z, x.merge y = .ok z ∧
    (z = x ∨ z = y ∨ ∃ g : Glyph, g.IsJunction ∧ z = .glyph g)
  /-- A cell over its equal changes nothing. -/
  merge_self : x.merge x = .ok x
  /-- A blank gives way to any cell. -/
  merge_blank_left : Cell.blank.merge x = .ok x
  /-- A blank over a cell changes nothing. -/
  merge_blank_right : x.merge Cell.blank = .ok x
  /-- The order matters to clashing pairs, except for one of them. -/
  merge_ne_iff : x.merge y ≠ y.merge x ↔ x.Clashes y ∧ ¬x.IsLineAndNul y
  /-- Without vertical lines and control characters the order does not matter. -/
  merge_comm : x ≠ .glyph .line → y ≠ .glyph .line → (∀ c, x = .ofChar c → 13 ≤ c.toNat) →
    (∀ c, y = .ofChar c → 13 ≤ c.toNat) → x.merge y = y.merge x

/-- **Merging is symmetric except for the pairs that clash.** -/
theorem mergeLaws (hx : x.IsSingle) (hy : y.IsSingle) : x.MergeLaws y where
  exists_merge := by
    obtain ⟨z, hz⟩ := exists_merge hx hy
    exact ⟨z, hz, merge_cases hz⟩
  merge_self := merge_self x
  merge_blank_left := merge_blank_left x
  merge_blank_right := merge_blank_right x
  merge_ne_iff := merge_ne_iff hx hy
  merge_comm hxl hyl hxc hyc := by
    refine Classical.not_not.mp fun hne ↦ ?_
    rcases (merge_ne_iff_of_ne_line hx hy hxl hyl).mp hne with hties | hties
    · obtain ⟨c, hc, hlt⟩ := hties.exists_lt
      exact Nat.not_le_of_lt hlt (hyc c hc)
    · obtain ⟨c, hc, hlt⟩ := hties.exists_lt
      exact Nat.not_le_of_lt hlt (hxc c hc)

/-- A vertical line and a character of its rank, which are a clash of both kinds. -/
theorem mergeLaws_line_of_tie :
    (Cell.glyph .line).IsSingle ∧ (ofChar '\x01').IsSingle ∧
      (Cell.glyph .line).Clashes (ofChar '\x01') ∧
      ¬(Cell.glyph .line).IsLineAndNul (ofChar '\x01') ∧
      (Cell.glyph .line).MergeLaws (ofChar '\x01') := by
  have hclashes : (Cell.glyph .line).Clashes (ofChar '\x01') :=
    Or.inr (Or.inl ⟨.line, '\x01', rfl, rfl, rfl⟩)
  have hnul : ¬(Cell.glyph .line).IsLineAndNul (ofChar '\x01') := by
    rintro (⟨-, h⟩ | ⟨h, -⟩)
    · exact absurd h (by decide)
    · exact absurd h (by decide)
  exact ⟨trivial, isSingle_ofChar _, hclashes, hnul, mergeLaws trivial (isSingle_ofChar _)⟩

/-- A vertical line and the character with code point zero clash, and yet merge to the line in
either order. -/
theorem not_ne_iff_clashes_line_nul :
    (Cell.glyph .line).IsSingle ∧ nul.IsSingle ∧
      ¬((Cell.glyph .line).merge nul ≠ nul.merge (.glyph .line) ↔
        (Cell.glyph .line).Clashes nul) := by
  have hclashes : (Cell.glyph .line).Clashes nul :=
    clashes_comm.mp (clashes_line_iff.mpr ⟨by decide, by decide, by decide, by decide⟩)
  exact ⟨trivial, isSingle_ofChar _, fun h ↦ h.mpr hclashes rfl⟩

end Cell

end WireDiagram
