import WireDiagram.Proofs.Capacity
import WireDiagram.Proofs.Seams

/-!
# Meetings

In a merge two cells meet, the one that is there and the one that is drawn over it. Which cells meet
while a trace is drawn is a list (`Trace.meetings`), made by drawing it and writing down every
merge. The theorem is that all of them join (`Trace.meetings_join`), so that drawing never depends
on a rank and no line is ever lost.

Whether the cells of a run join is decided cell by cell (`Canvas.joins_of_mem_meetings`), and a cell
sees the strokes of one operator, or of two that share a seam.
-/

namespace WireDiagram

/-! ## The meetings of a run -/

namespace Canvas

/-- The cells that meet in a stroke, if it is a merge: what is there, and what is drawn over it. -/
def meeting? (c : Canvas) : Stroke → Option (Cell × Cell)
  | .put _ _ _ => none
  | .merge row col y => (c.cell? row col).map fun x ↦ (x, y)

/-- The cells that meet in a run of strokes, in order. -/
def meetings (c : Canvas) : List Stroke → List (Cell × Cell)
  | [] => []
  | s :: strokes => (c.meeting? s).toList ++ match c.stroke s with
    | .ok c' => c'.meetings strokes
    | .error _ => []

/-- **Meetings are merges.** What a stroke over a cell leaves is the merge of the two that meet. -/
theorem merge_of_meeting? {c : Canvas} {row col : Int} {x y : Cell}
    (h : c.meeting? (.merge row col y) = some (x, y)) :
    c.merge row col y = (x.merge y).map (c.put row col) := by
  obtain ⟨x', hx', heq⟩ := Option.map_eq_some_iff.mp h
  obtain rfl : x' = x := (Prod.mk.inj heq).1
  rw [Canvas.merge, get_eq_ok_iff.mpr hx']
  show (x'.merge y).bind _ = _
  cases x'.merge y <;> rfl

theorem merge_of_meeting?_eq_none {c : Canvas} {row col : Int} {y : Cell}
    (h : c.meeting? (.merge row col y) = none) :
    c.merge row col y = .error (c.outside row col) := by
  have hx := Option.map_eq_none_iff.mp h
  rw [Canvas.merge, get, hx]
  rfl

theorem meetings_append {xs ys : List Stroke} :
    ∀ {c c' : Canvas}, c.strokeAll xs = (c', none) →
      c.meetings (xs ++ ys) = c.meetings xs ++ c'.meetings ys := by
  induction xs with
  | nil =>
    intro c c' h
    rw [← (Prod.mk.inj h).1]
    rfl
  | cons s xs ih =>
    intro c c' h
    rw [strokeAll] at h
    rw [List.cons_append, meetings, meetings, List.append_assoc]
    cases hs : c.stroke s with
    | ok c₁ =>
      rw [hs] at h
      exact congrArg _ (ih h)
    | error fault =>
      rw [hs] at h
      exact absurd (Prod.mk.inj h).2 (by simp)

theorem joins_of_mem_meetings {strokes : List Stroke} :
    ∀ {c : Canvas}, c.AllSingle → c.Fits strokes →
      (∀ row col x, c.cell? row col = some x → x.JoinsAll (strokesAt row col strokes)) →
      ∀ e ∈ c.meetings strokes, e.1.Joins e.2 := by
  induction strokes with
  | nil => intro c _ _ _ e he; exact absurd he List.not_mem_nil
  | cons s strokes ih =>
    intro c hc hfits hjoins e he
    obtain ⟨hinside, hsingle⟩ := hfits s List.mem_cons_self
    obtain ⟨x, hx⟩ := exists_cell? hinside
    have hstep := stroke_of_inside hc hsingle hx
    have hafter : (s.after x).IsSingle := Stroke.isSingle_after hsingle (hc _ _ x hx)
    have hx' := hjoins s.row s.col x hx
    rw [strokesAt_cons_of_at ⟨rfl, rfl⟩] at hx'
    rw [meetings, List.mem_append] at he
    -- The cells meet in the first stroke, or on the canvas after it, where what is left of the
    -- strokes of every cell still joins.
    rcases he with he | he
    · cases s with
      | put row col y => exact absurd he List.not_mem_nil
      | merge row col y =>
        have hmeeting : c.meeting? (.merge row col y) = some (x, y) := by
          have hx₀ : c.cell? row col = some x := hx
          rw [meeting?, hx₀, Option.map_some]
        rw [hmeeting, Option.toList_some, List.mem_singleton] at he
        rw [he]
        exact hx'.1
    · rw [hstep] at he
      refine ih (hc.put s.row s.col hafter) (fun t ht ↦ hfits t (List.mem_cons_of_mem _ ht)) ?_ e he
      intro row col y hy
      rw [cell?_put] at hy
      by_cases hat : s.row = row ∧ s.col = col
      · obtain ⟨rfl, rfl⟩ := hat
        rw [if_pos ⟨hinside, rfl, rfl⟩, Option.some.injEq] at hy
        subst hy
        cases s with
        | put row col y => exact hx'
        | merge row col y => exact hx'.2
      · rw [if_neg fun h ↦ hat ⟨h.2.1.symm, h.2.2.symm⟩] at hy
        have := hjoins row col y hy
        rwa [strokesAt_cons_of_not_at hat] at this

/-- The cells that meet while operators are drawn in order, up to the first that fails. -/
def meetingsAll (c : Canvas) : List Operator → List (Cell × Cell)
  | [] => []
  | op :: ops => c.meetings (op.strokes c.wires) ++ match c.draw op with
    | (c', none) => c'.meetingsAll ops
    | (_, some _) => []

theorem meetingsAll_eq {count : Nat} {ops : List Operator} :
    ∀ {c : Canvas}, c.AllSingle → c.wires = count →
      (∀ op ∈ ops, (op.sketch count).fault? = none ∧ c.Fits (op.strokes count)) →
      c.meetingsAll ops = c.meetings (ops.flatMap fun op ↦ op.strokes count) := by
  induction ops with
  | nil => intro c _ _ _; rfl
  | cons op ops ih =>
    intro c hc hwires hops
    obtain ⟨hfault, hfits⟩ := hops op List.mem_cons_self
    subst hwires
    obtain ⟨c', hdraw, hc'⟩ := exists_draw hc hfault hfits
    have hrest : ∀ op' ∈ ops, (op'.sketch c.wires).fault? = none ∧ c'.Fits (op'.strokes c.wires) :=
      fun op' hop' ↦ hc'.fits_of_mem hops (List.mem_cons_of_mem op hop')
    rw [meetingsAll, hdraw, List.flatMap_cons, meetings_append hc'.run]
    exact congrArg _ (ih hc'.allSingle hc'.wires_eq hrest)

end Canvas

/-! ## The meetings of a trace -/

namespace Trace

/-- The cells that meet while a trace is laid out and drawn. -/
def meetings (t : Trace) : List (Cell × Cell) :=
  match packOn t.operators t.wireCount with
  | .error _ => []
  | .ok layers => match (Placement.ofLayers layers t.operators).total with
    | .error _ => []
    | .ok total => match Canvas.make? t.wireCount total with
      | .error _ => []
      | .ok c => c.meetingsAll (Placement.ofLayers layers t.operators).operators

variable {t : Trace}

theorem meetings_eq (t : Trace) : t.meetings =
    if t.HasCanvas then (Canvas.fresh t.wireCount t.width).meetings
      (t.placed.flatMap fun op ↦ op.strokes t.wireCount) else [] := by
  by_cases h : t.HasCanvas
  · have hrows := h.height_le
    have hpack : packOn t.operators t.wireCount = .ok (Slot.layers t.slots) := by
      rw [packOn_eq, if_pos (by omega)]
    simp only [meetings, hpack, ofLayers_eq, make?_eq, if_pos h]
    exact Canvas.meetingsAll_eq (Canvas.allSingle_fresh _ _) rfl t.fits_placed
  · rw [if_neg h, meetings, packOn_eq]
    by_cases hcount : t.wireCount ≤ Room.maxEntries
    · simp only [if_pos hcount, ofLayers_eq, make?_eq, if_neg h]
    · simp only [if_neg hcount]

/-- **The strokes of every cell join.** -/
theorem joinsAll_placed (t : Trace) (row col : Int) :
    (Cell.fresh row).JoinsAll
      (strokesAt row col (t.placed.flatMap fun op ↦ op.strokes t.wireCount)) := by
  rw [strokesAt_flatMap_strokes fun op hop ↦ exists_isSettled hop]
  rcases coverers_cases (fun op hop ↦ exists_isSettled hop) t.pairwise_placed row col with
    hops | ⟨⟨op, j⟩, hops⟩ | ⟨⟨op, i⟩, ⟨op', j⟩, hops, hapart⟩
  · rw [hops]
    trivial
  · have hmem : (op, j) ∈ coverers t.placed row col := hops ▸ List.mem_cons_self
    obtain ⟨a, ha⟩ := exists_isSettled (List.mem_of_getElem? (mem_coverers_iff.mp hmem).1)
    rw [hops, List.flatMap_singleton]
    exact ha.holds.joins row col
  · obtain ⟨a, b, -, -, hcommutes⟩ :=
      exists_shared (fun op hop ↦ exists_isSettled hop) hops hapart
    rw [hops, List.flatMap_cons, List.flatMap_singleton]
    exact hcommutes.joins

/-- **All cells that meet join.** Neither of the rules that lose a line is ever in charge, and a
merge has the arms of both cells, but for a dot, which stays a dot. -/
theorem meetings_join {existing incoming : Cell} (h : (existing, incoming) ∈ t.meetings) :
    existing.Joins incoming ∧
      (existing.rule incoming ≠ .replace ∧ existing.rule incoming ≠ .rank) ∧
        ∃ z, existing.merge incoming = .ok z ∧
          if existing = .glyph .dot then z = .glyph .dot
          else z.arms = existing.arms.union incoming.arms := by
  have hjoins : existing.Joins incoming := by
    rw [meetings_eq] at h
    split at h
    · refine Canvas.joins_of_mem_meetings (Canvas.allSingle_fresh _ _) ?_ ?_ _ h
      · intro s hs
        obtain ⟨op, hop, hs⟩ := List.mem_flatMap.mp hs
        exact (t.fits_placed op hop).2 s hs
      · intro row col x hx
        rw [Canvas.cell?_fresh_of_inside (Canvas.inside_of_cell? hx), Option.some.injEq] at hx
        rw [← hx]
        exact t.joinsAll_placed row col
    · exact absurd h List.not_mem_nil
  exact ⟨hjoins, hjoins.rule_ne, hjoins.exists_merge⟩

/-- The corners of two boxes below each other meet, and join. -/
theorem meetings_join_corners :
    (Cell.glyph .bottomLeft, Cell.glyph .topLeft) ∈
        (Trace.ofSingles 2 [("h", 0), ("x", 1)]).meetings ∧
      (Cell.glyph .bottomLeft).Joins (.glyph .topLeft) := by
  have hmem : (Cell.glyph .bottomLeft, Cell.glyph .topLeft) ∈
      (Trace.ofSingles 2 [("h", 0), ("x", 1)]).meetings := by
    decide +kernel
  exact ⟨hmem, (meetings_join hmem).1⟩

end Trace

end WireDiagram
