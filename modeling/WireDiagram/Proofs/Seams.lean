import WireDiagram.Proofs.Layout

/-!
# Seams

The strokes in one cell come from the operators in whose areas the cell lies (`coverers`), and there
are at most two of them. Two share a cell in a seam only, the row between their spans, where each
has at most one merge to make, on a blank. Either order of these merges leaves the same
(`Operator.IsSettled.commutes`).
-/

namespace WireDiagram

/-! ## Two drawings in one cell -/

/-- Whether two drawings in one cell join in either order, and leave the merge of what either of
them leaves alone. -/
structure Cell.Commutes (x : Cell) (xs ys : List Stroke) : Prop where
  /-- The second drawing alone, drawn over the first one alone. -/
  merge_eq : (x.inked xs).merge (x.inked ys) = .ok (x.inked (xs ++ ys))
  /-- The first drawing alone, drawn over the second one alone. -/
  merge_eq' : (x.inked ys).merge (x.inked xs) = .ok (x.inked (xs ++ ys))
  /-- The order of the drawings makes no difference. -/
  inked_comm : x.inked (ys ++ xs) = x.inked (xs ++ ys)
  /-- All merges join if the first drawing comes first. -/
  joins : x.JoinsAll (xs ++ ys)
  /-- All merges join if the second drawing comes first. -/
  joins' : x.JoinsAll (ys ++ xs)

theorem Cell.Commutes.symm {x : Cell} {xs ys : List Stroke} (h : x.Commutes xs ys) :
    x.Commutes ys xs where
  merge_eq := by rw [h.merge_eq', h.inked_comm]
  merge_eq' := by rw [h.merge_eq, h.inked_comm]
  inked_comm := h.inked_comm.symm
  joins := h.joins'
  joins' := h.joins

theorem Cell.inked_blank (row col : Int) (y : Cell) :
    Cell.blank.inked [.merge row col y] = y :=
  overlay_of_merge (merge_blank_left y)

theorem Cell.commutes_nil {ys : List Stroke} (h : Cell.blank.JoinsAll ys) :
    Cell.blank.Commutes [] ys where
  merge_eq := merge_blank_left _
  merge_eq' := merge_blank_right _
  inked_comm := by
    rw [List.append_nil]
    rfl
  joins := h
  joins' := by rwa [List.append_nil]

/-- Two merges on a blank may be made in either order if the cells they draw merge so. -/
theorem Cell.commutes_merges {row col : Int} {y z : Cell} (hy : y.IsSingle) (hz : z.IsSingle)
    (hcomm : y.merge z = z.merge y) (hjoins : y.Joins z) (hjoins' : z.Joins y) :
    Cell.blank.Commutes [.merge row col y] [.merge row col z] := by
  have hmerge : y.merge z = .ok (y.overlay z) := (merge_eq_overlay hy hz).1
  have hoverlay : z.overlay y = y.overlay z := overlay_of_merge (hcomm ▸ hmerge)
  refine ⟨?_, ?_, ?_, ?_, ?_⟩
  · rw [inked_append, inked_blank, inked_blank]
    exact hmerge
  · rw [inked_append, inked_blank, inked_blank]
    exact hcomm ▸ hmerge
  · rw [inked_append, inked_append, inked_blank, inked_blank]
    exact hoverlay
  · refine joinsAll_append.mpr ⟨⟨.blank _, trivial⟩, ?_⟩
    rw [inked_blank]
    exact ⟨hjoins, trivial⟩
  · refine joinsAll_append.mpr ⟨⟨.blank _, trivial⟩, ?_⟩
    rw [inked_blank]
    exact ⟨hjoins', trivial⟩

/-- **In a seam the order does not matter.** -/
theorem Area.Holds.commutes {a b : Area} {xs ys : List Stroke} {row col : Int} (ha : a.Holds xs)
    (hb : b.Holds ys) (habove : a.Above b row)
    (hne : ¬(col = a.left ∧ col = b.right) ∧ ¬(col = a.right ∧ col = b.left)) :
    (Cell.fresh row).Commutes (strokesAt row col xs) (strokesAt row col ys) := by
  have hfresh : Cell.fresh row = .blank := by
    apply if_neg
    rw [habove.2, Area.edge]
    omega
  have hx := ha.edges .lower col
  have hy := hb.edges .upper col
  have hjoins := ha.joins row col
  have hjoins' := hb.joins row col
  rw [← habove.2] at hx
  rw [← habove.row_eq] at hy
  rw [hfresh] at hjoins hjoins' ⊢
  -- The row is the lower edge of the one area and the upper edge of the other.
  rcases hx with hx | ⟨g, hg, hx⟩
  · rw [hx]
    exact Cell.commutes_nil hjoins'
  rcases hy with hy | ⟨g', hg', hy⟩
  · rw [hy]
    exact (Cell.commutes_nil hjoins).symm
  rw [hx, hy]
  have hedges := joins_edgeMark hg hg' hne
  exact Cell.commutes_merges trivial trivial (merge_edgeMark_comm hg hg') hedges.1 hedges.2

namespace Operator

variable {op op' : Operator} {count width : Nat} {a b : Area} {row col : Int}

theorem IsSettled.covers_iff (h : op.IsSettled count width a) :
    op.covers row col = true ↔ a.Covers row col :=
  Operator.covers_iff h.area?_eq

theorem IsSettled.strokesAt_eq_nil (h : op.IsSettled count width a)
    (hcovers : ¬op.covers row col = true) : strokesAt row col (op.strokes count) = [] := by
  refine WireDiagram.strokesAt_eq_nil fun s hs hat ↦ hcovers (h.covers_iff.mpr ?_)
  rw [← hat.1, ← hat.2]
  exact h.holds.covers s hs

theorem IsSettled.seam (h : op.IsSettled count width a) (h' : op'.IsSettled count width b)
    (hapart : op.Apart op') (hcovers : op.covers row col = true)
    (hcovers' : op'.covers row col = true) : a.Above b row ∨ b.Above a row :=
  (hapart a b h.area?_eq h'.area?_eq).seam (h.covers_iff.mp hcovers) (h'.covers_iff.mp hcovers')

/-- **Two operators may draw in either order**, wherever they meet. -/
theorem IsSettled.commutes (h : op.IsSettled count width a) (h' : op'.IsSettled count width b)
    (hapart : op.Apart op') (hcovers : op.covers row col = true)
    (hcovers' : op'.covers row col = true) :
    (Cell.fresh row).Commutes (strokesAt row col (op.strokes count))
      (strokesAt row col (op'.strokes count)) := by
  have hareas := hapart a b h.area?_eq h'.area?_eq
  have hne := hareas.left_ne_right h.left_lt_right h'.left_lt_right col
  rcases h.seam h' hapart hcovers hcovers' with habove | habove
  · exact h.holds.commutes h'.holds habove hne
  · exact (h'.holds.commutes h.holds habove ⟨fun hc ↦ hne.2 hc.symm, fun hc ↦ hne.1 hc.symm⟩).symm

theorem not_covers_three {op₁ op₂ op₃ : Operator} {a₁ a₂ a₃ : Area}
    (h₁ : op₁.IsSettled count width a₁) (h₂ : op₂.IsSettled count width a₂)
    (h₃ : op₃.IsSettled count width a₃) (h₁₂ : op₁.Apart op₂) (h₁₃ : op₁.Apart op₃)
    (h₂₃ : op₂.Apart op₃) (hc₁ : op₁.covers row col = true) (hc₂ : op₂.covers row col = true)
    (hc₃ : op₃.covers row col = true) : False :=
  Area.not_three (h₁.covers_iff.mp hc₁) (h₂.covers_iff.mp hc₂) (h₃.covers_iff.mp hc₃)
    (h₁₂ a₁ a₂ h₁.area?_eq h₂.area?_eq) (h₁₃ a₁ a₃ h₁.area?_eq h₃.area?_eq)
    (h₂₃ a₂ a₃ h₂.area?_eq h₃.area?_eq) h₁.within.low_le_high h₂.within.low_le_high
    h₃.within.low_le_high

end Operator

/-! ## The operators of one cell -/

/-- The operators in whose areas a cell lies, with their places. -/
def coverers (ops : List Operator) (row col : Int) : List (Operator × Nat) :=
  ops.zipIdx.filter fun p ↦ p.1.covers row col

section Coverers

variable {ops : List Operator} {count width : Nat} {row col : Int}

theorem mem_coverers_iff {op : Operator} {j : Nat} :
    (op, j) ∈ coverers ops row col ↔ ops[j]? = some op ∧ op.covers row col = true := by
  rw [coverers, List.mem_filter, List.mem_zipIdx_iff_getElem?]

theorem pairwise_coverers (h : ops.Pairwise Operator.Apart) (row col : Int) :
    (coverers ops row col).Pairwise fun p q ↦ p.1.Apart q.1 := by
  refine List.Pairwise.filter _ (List.pairwise_map.mp ?_)
  rwa [List.zipIdx_map_fst]

theorem strokesAt_flatMap_strokes (h : ∀ op ∈ ops, ∃ a, op.IsSettled count width a) :
    strokesAt row col (ops.flatMap fun op ↦ op.strokes count) =
      (coverers ops row col).flatMap fun p ↦ strokesAt row col (p.1.strokes count) := by
  have hzip : ops.flatMap (fun op ↦ strokesAt row col (op.strokes count)) =
      ops.zipIdx.flatMap fun p ↦ strokesAt row col (p.1.strokes count) := by
    rw [← List.flatMap_map (f := Prod.fst)
      (g := fun op : Operator ↦ strokesAt row col (op.strokes count)), List.zipIdx_map_fst]
  rw [strokesAt_flatMap, hzip, coverers, flatMap_filter_eq]
  intro p hp hcovers
  obtain ⟨a, ha⟩ := h p.1 (List.fst_mem_of_mem_zipIdx hp)
  exact ha.strokesAt_eq_nil hcovers

/-- **A cell lies in two areas at most.** -/
theorem coverers_cases (hsettled : ∀ op ∈ ops, ∃ a, op.IsSettled count width a)
    (hapart : ops.Pairwise Operator.Apart) (row col : Int) :
    coverers ops row col = [] ∨ (∃ p, coverers ops row col = [p]) ∨
      ∃ p q, coverers ops row col = [p, q] ∧ p.1.Apart q.1 := by
  have hpairs := pairwise_coverers hapart row col
  have hmem : ∀ p ∈ coverers ops row col, p.1 ∈ ops ∧ p.1.covers row col = true := by
    intro p hp
    obtain ⟨hget, hcovers⟩ := mem_coverers_iff.mp hp
    exact ⟨List.mem_of_getElem? hget, hcovers⟩
  match coverers ops row col, hpairs, hmem with
  | [], _, _ => exact Or.inl rfl
  | [p], _, _ => exact Or.inr (Or.inl ⟨p, rfl⟩)
  | [p, q], hpairs, _ =>
    exact Or.inr (Or.inr ⟨p, q, rfl, (List.pairwise_cons.mp hpairs).1 q List.mem_cons_self⟩)
  | p :: q :: r :: rest, hpairs, hmem =>
    -- Three operators that are apart have no cell in common.
    obtain ⟨hp, hpairs'⟩ := List.pairwise_cons.mp hpairs
    have hqr := (List.pairwise_cons.mp hpairs').1 r List.mem_cons_self
    obtain ⟨hp₁, hp₂⟩ := hmem p (by simp)
    obtain ⟨hq₁, hq₂⟩ := hmem q (by simp)
    obtain ⟨hr₁, hr₂⟩ := hmem r (by simp)
    obtain ⟨a, ha⟩ := hsettled p.1 hp₁
    obtain ⟨b, hb⟩ := hsettled q.1 hq₁
    obtain ⟨c, hc⟩ := hsettled r.1 hr₁
    exact (Operator.not_covers_three ha hb hc (hp q (by simp)) (hp r (by simp)) hqr hp₂ hq₂
      hr₂).elim

/-- **Two operators that share a cell** are settled in areas that meet in a seam, and may draw in
either order. -/
theorem exists_shared (hsettled : ∀ op ∈ ops, ∃ a, op.IsSettled count width a) {op op' : Operator}
    {i j : Nat} (hops : coverers ops row col = [(op, i), (op', j)]) (hapart : op.Apart op') :
    ∃ a b, (op.IsSettled count width a ∧ op'.IsSettled count width b) ∧
      (a.Above b row ∨ b.Above a row) ∧
        (Cell.fresh row).Commutes (strokesAt row col (op.strokes count))
          (strokesAt row col (op'.strokes count)) := by
  have hmem : (op, i) ∈ coverers ops row col := hops ▸ List.mem_cons_self
  have hmem' : (op', j) ∈ coverers ops row col := hops ▸ List.mem_cons_of_mem _ List.mem_cons_self
  obtain ⟨hget, hcovers⟩ := mem_coverers_iff.mp hmem
  obtain ⟨hget', hcovers'⟩ := mem_coverers_iff.mp hmem'
  obtain ⟨a, ha⟩ := hsettled op (List.mem_of_getElem? hget)
  obtain ⟨b, hb⟩ := hsettled op' (List.mem_of_getElem? hget')
  exact ⟨a, b, ⟨ha, hb⟩, ha.seam hb hapart hcovers hcovers',
    ha.commutes hb hapart hcovers hcovers'⟩

end Coverers

end WireDiagram
