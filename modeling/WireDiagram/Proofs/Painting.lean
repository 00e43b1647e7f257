import WireDiagram.Proofs.Junction
import WireDiagram.Sketch

/-!
# Painting, cell by cell

Strokes touch one cell each, so what a list of strokes leaves in a cell depends on the strokes made
in that cell and on nothing else. `strokesAt` picks these strokes, `Cell.inked` makes them on a cell
without a canvas around it, and `Canvas.exists_inked` says that painting a canvas is making each
cell's own strokes in each cell.

## Single cells

Merging may fail, but only where a rank is asked for and a cell has none, and a cell that shows one
character always has one. So on canvases of single cells (`Canvas.AllSingle`) a merge is a total
function, `Cell.overlay`, and painting can only fail by missing the canvas.

Whether all merges on a cell join is decided there as well: `Cell.JoinsAll` follows the strokes of
one cell.
-/

namespace WireDiagram

/-! ## Merging single cells -/

namespace Cell

/-- What is left when a cell is drawn over another one; a merge that fails leaves the cell as it
was. -/
def overlay (existing incoming : Cell) : Cell :=
  match existing.merge incoming with
  | .ok z => z
  | .error _ => existing

theorem overlay_of_merge {x y z : Cell} (h : x.merge y = .ok z) : x.overlay y = z := by
  rw [overlay, h]

theorem isSingle_cases {x : Cell} (h : x.IsSingle) : (∃ g, x = .glyph g) ∨ ∃ c, x = .ofChar c := by
  cases x with
  | glyph g => exact Or.inl ⟨g, rfl⟩
  | raw cs =>
    obtain ⟨c, rfl⟩ := List.length_eq_one_iff.mp h
    exact Or.inr ⟨c, rfl⟩

theorem exists_rank {x : Cell} (h : x.IsSingle) : ∃ n, x.rank = .ok n := by
  rcases isSingle_cases h with ⟨g, rfl⟩ | ⟨c, rfl⟩
  · exact ⟨g.rank, rfl⟩
  · exact ⟨c.toNat, rfl⟩

theorem underLine_cases (x : Cell) :
    x.underLine = x ∨ x.underLine = .glyph .line ∨ x.underLine = .glyph .cross := by
  unfold underLine
  split
  · exact Or.inl rfl
  · exact Or.inl rfl
  · exact Or.inr (Or.inr rfl)
  · exact Or.inr (Or.inl rfl)

theorem join_cases (x y : Cell) :
    x.join y = y ∨ ∃ g : Glyph, g.IsJunction ∧ x.join y = .glyph g := by
  unfold join
  split
  case h_7 => exact Or.inl rfl
  all_goals exact Or.inr ⟨_, by decide, rfl⟩

/-- A merge leaves one of the two cells, or a junction. -/
theorem merge_cases {x y z : Cell} (h : x.merge y = .ok z) :
    z = x ∨ z = y ∨ ∃ g : Glyph, g.IsJunction ∧ z = .glyph g := by
  have hrules := h
  unfold merge at hrules
  split at hrules
  · exact Or.inl (Except.ok.inj hrules).symm
  split at hrules
  · exact Or.inr (Or.inl (Except.ok.inj hrules).symm)
  split at hrules
  · exact Or.inl (Except.ok.inj hrules).symm
  split at hrules
  · rename_i hl
    rw [← Except.ok.inj hrules, hl]
    exact (underLine_cases x).imp_right (Or.imp_right fun h ↦ ⟨.cross, Or.inl rfl, h⟩)
  rename_i hxy hx hy hl
  -- The ranks decide which of the cells comes first, and so which one may win.
  rcases ha : x.rank with fault | a
  · rw [ha] at hrules
    contradiction
  rcases hb : y.rank with fault | b
  · rw [ha, hb] at hrules
    contradiction
  rw [merge_of_rank hxy hx hy hl ha hb, Except.ok.injEq] at h
  rw [← h]
  split
  · exact (join_cases y x).imp_right Or.inr
  · exact Or.inr (join_cases x y)

theorem exists_merge {x y : Cell} (hx : x.IsSingle) (hy : y.IsSingle) : ∃ z, x.merge y = .ok z := by
  obtain ⟨a, ha⟩ := exists_rank hx
  obtain ⟨b, hb⟩ := exists_rank hy
  by_cases hxy : x = y
  · exact ⟨x, by rw [← hxy, merge_self]⟩
  by_cases hx' : x = blank
  · exact ⟨y, by rw [hx', merge_blank_left]⟩
  by_cases hy' : y = blank
  · exact ⟨x, by rw [hy', merge_blank_right]⟩
  by_cases hl : y = .glyph .line
  · exact ⟨x.underLine, by rw [merge, if_neg hxy, if_neg hx', if_neg hy', if_pos hl]⟩
  · exact ⟨_, merge_of_rank hxy hx' hy' hl ha hb⟩

/-- Single cells always merge, and to a single cell. -/
theorem merge_eq_overlay {x y : Cell} (hx : x.IsSingle) (hy : y.IsSingle) :
    x.merge y = .ok (x.overlay y) ∧ (x.overlay y).IsSingle := by
  obtain ⟨z, hz⟩ := exists_merge hx hy
  rw [overlay_of_merge hz]
  refine ⟨hz, ?_⟩
  rcases merge_cases hz with rfl | rfl | ⟨g, -, rfl⟩
  · exact hx
  · exact hy
  · trivial

end Cell

/-! ## The strokes of one cell -/

/-- The cell that a stroke draws. -/
def Stroke.cell : Stroke → Cell
  | .put _ _ y => y
  | .merge _ _ y => y

/-- What a stroke makes of the cell that it is on. -/
def Stroke.after : Stroke → Cell → Cell
  | .put _ _ y, _ => y
  | .merge _ _ y, x => x.overlay y

theorem Stroke.isSingle_after {s : Stroke} {x : Cell} (hs : s.cell.IsSingle) (hx : x.IsSingle) :
    (s.after x).IsSingle := by
  cases s with
  | put row col y => exact hs
  | merge row col y => exact (Cell.merge_eq_overlay hx hs).2

/-- The strokes on one cell, in order. -/
def strokesAt (row col : Int) (strokes : List Stroke) : List Stroke :=
  strokes.filter fun s ↦ decide (s.row = row ∧ s.col = col)

/-- What strokes on one cell leave of it. -/
def Cell.inked (x : Cell) (strokes : List Stroke) : Cell :=
  strokes.foldl (fun x s ↦ s.after x) x

/-- Whether every merge among strokes on one cell is a junction. -/
def Cell.JoinsAll : Cell → List Stroke → Prop
  | _, [] => True
  | _, .put _ _ y :: strokes => y.JoinsAll strokes
  | x, .merge _ _ y :: strokes => x.Joins y ∧ (x.overlay y).JoinsAll strokes

section StrokesAt

variable {row col : Int} {s : Stroke} {xs ys : List Stroke}

@[simp] theorem strokesAt_nil : strokesAt row col [] = [] := rfl

theorem strokesAt_cons_of_at (h : s.row = row ∧ s.col = col) :
    strokesAt row col (s :: xs) = s :: strokesAt row col xs :=
  List.filter_cons_of_pos (by simpa using h)

theorem strokesAt_cons_of_not_at (h : ¬(s.row = row ∧ s.col = col)) :
    strokesAt row col (s :: xs) = strokesAt row col xs :=
  List.filter_cons_of_neg (by simpa using h)

@[simp] theorem strokesAt_append :
    strokesAt row col (xs ++ ys) = strokesAt row col xs ++ strokesAt row col ys :=
  List.filter_append xs ys

theorem mem_strokesAt_iff : s ∈ strokesAt row col xs ↔ s ∈ xs ∧ s.row = row ∧ s.col = col := by
  simp [strokesAt, List.mem_filter]

theorem strokesAt_eq_nil (h : ∀ s ∈ xs, ¬(s.row = row ∧ s.col = col)) :
    strokesAt row col xs = [] :=
  List.filter_eq_nil_iff.mpr fun s hs ↦ by simpa using h s hs

theorem strokesAt_flatMap {α : Type} (l : List α) (f : α → List Stroke) :
    strokesAt row col (l.flatMap f) = l.flatMap fun a ↦ strokesAt row col (f a) :=
  List.filter_flatMap

theorem Cell.inked_append (x : Cell) : x.inked (xs ++ ys) = (x.inked xs).inked ys :=
  List.foldl_append

end StrokesAt

theorem Cell.joinsAll_append {xs ys : List Stroke} :
    ∀ {x : Cell}, x.JoinsAll (xs ++ ys) ↔ x.JoinsAll xs ∧ (x.inked xs).JoinsAll ys := by
  induction xs with
  | nil =>
    intro x
    exact ⟨fun h ↦ ⟨trivial, h⟩, fun h ↦ h.2⟩
  | cons s xs ih =>
    intro x
    cases s with
    | put row col y => exact ih
    | merge row col y =>
      show x.Joins y ∧ (x.overlay y).JoinsAll (xs ++ ys) ↔
        (x.Joins y ∧ (x.overlay y).JoinsAll xs) ∧ ((x.overlay y).inked xs).JoinsAll ys
      rw [ih, and_assoc]

/-- Whether a stroke overwrites its cell. -/
def Stroke.IsPut (s : Stroke) : Prop :=
  ∃ row col y, s = .put row col y

/-- Overwriting alone merges nothing. -/
theorem Cell.joinsAll_of_puts {strokes : List Stroke} (h : ∀ s ∈ strokes, s.IsPut) :
    ∀ x : Cell, x.JoinsAll strokes := by
  induction strokes with
  | nil => intro x; trivial
  | cons s strokes ih =>
    intro x
    obtain ⟨row, col, y, rfl⟩ := h s List.mem_cons_self
    exact ih (fun s hs ↦ h s (List.mem_cons_of_mem _ hs)) y

/-- The cell of a fresh canvas in a row. -/
def Cell.fresh (row : Int) : Cell :=
  if row % 2 = 1 then .glyph .wire else .blank

theorem Cell.isSingle_fresh (row : Int) : (Cell.fresh row).IsSingle := by
  unfold Cell.fresh
  split
  · trivial
  · exact Cell.isSingle_ofChar ' '

/-! ## Painting a canvas -/

namespace Canvas

/-- A canvas is determined by its size and its contents. -/
theorem ext_cell? {c c' : Canvas} (hwires : c.wires = c'.wires) (hwidth : c.width = c'.width)
    (h : ∀ row col, c.cell? row col = c'.cell? row col) : c = c' := by
  rcases c with ⟨n, w, g⟩
  rcases c' with ⟨n', w', g'⟩
  obtain rfl : n = n' := hwires
  obtain rfl : w = w' := hwidth
  have hgrid : g = g' := Grid.ext_cell? h
  rw [hgrid]

theorem exists_cell? {c : Canvas} {row col : Int} (h : c.Inside row col) :
    ∃ x, c.cell? row col = some x :=
  Option.isSome_iff_exists.mp (Grid.cell?_isSome_iff.mpr h)

/-- Every cell of a canvas shows exactly one character. -/
def AllSingle (c : Canvas) : Prop :=
  ∀ row col x, c.cell? row col = some x → x.IsSingle

theorem inside_of_cell? {c : Canvas} {row col : Int} {x : Cell} (h : c.cell? row col = some x) :
    c.Inside row col :=
  Grid.cell?_isSome_iff.mp (Option.isSome_iff_exists.mpr ⟨x, h⟩)

theorem cell?_fresh_of_inside {wires width : Nat} {row col : Int}
    (h : (fresh wires width).Inside row col) :
    (fresh wires width).cell? row col = some (Cell.fresh row) :=
  cell?_fresh h

theorem allSingle_fresh (wires width : Nat) : (fresh wires width).AllSingle := by
  intro row col x hx
  rw [cell?_fresh_of_inside (inside_of_cell? hx), Option.some.injEq] at hx
  rw [← hx]
  exact Cell.isSingle_fresh row

theorem AllSingle.put {c : Canvas} (h : c.AllSingle) (row col : Int) {x : Cell}
    (hx : x.IsSingle) : (c.put row col x).AllSingle := by
  intro i j y hy
  rw [cell?_put] at hy
  split at hy
  · cases hy
    exact hx
  · exact h i j y hy

/-- A stroke on a canvas of single cells changes its own cell and no other one. -/
theorem stroke_of_inside {c : Canvas} {s : Stroke} (hc : c.AllSingle) (hs : s.cell.IsSingle)
    {x : Cell} (hx : c.cell? s.row s.col = some x) :
    c.stroke s = .ok (c.put s.row s.col (s.after x)) := by
  cases s with
  | put row col y => exact set_of_inside (inside_of_cell? hx) y
  | merge row col y =>
    have hget : c.get row col = .ok x := get_eq_ok_iff.mpr hx
    have hmerge : x.merge y = .ok (x.overlay y) := (Cell.merge_eq_overlay (hc row col x hx) hs).1
    show c.merge row col y = _
    rw [Canvas.merge, hget]
    show (x.merge y).bind _ = _
    rw [hmerge]
    rfl

theorem stroke_of_not_inside {c : Canvas} {s : Stroke} (h : ¬c.Inside s.row s.col) :
    c.stroke s = .error (c.outside s.row s.col) := by
  cases s with
  | put row col y => exact set_of_not_inside h y
  | merge row col y =>
    have hnone : c.cell? row col = none := Grid.cell?_of_not_inside h
    show c.merge row col y = _
    rw [Canvas.merge, get, hnone]
    rfl

/-- A list of strokes that can be made on a canvas: each of them is on it and draws a single cell.
-/
def Fits (c : Canvas) (strokes : List Stroke) : Prop :=
  ∀ s ∈ strokes, c.Inside s.row s.col ∧ s.cell.IsSingle

/-- What a run of strokes leaves on a canvas, said cell by cell. -/
structure Inked (c : Canvas) (strokes : List Stroke) (c' : Canvas) : Prop where
  /-- The run comes to its end, and there. -/
  run : c.strokeAll strokes = (c', none)
  /-- The number of wires stays. -/
  wires_eq : c'.wires = c.wires
  /-- The number of columns stays. -/
  width_eq : c'.width = c.width
  /-- Cells stay single. -/
  allSingle : c'.AllSingle
  /-- Every cell holds what its own strokes leave of it. -/
  cell?_eq : ∀ row col, c'.cell? row col = (c.cell? row col).map fun x ↦
    x.inked (strokesAt row col strokes)

/-- **Painting is local.** Strokes on a canvas are made to the last one, and each cell sees its own
strokes only. -/
theorem exists_inked {strokes : List Stroke} :
    ∀ {c : Canvas}, c.AllSingle → c.Fits strokes → ∃ c', c.Inked strokes c' := by
  induction strokes with
  | nil =>
    intro c hc _
    exact ⟨c, rfl, rfl, rfl, hc, fun row col ↦ by simp [Cell.inked]⟩
  | cons s strokes ih =>
    intro c hc hfits
    obtain ⟨hinside, hsingle⟩ := hfits s List.mem_cons_self
    obtain ⟨x, hx⟩ := exists_cell? hinside
    have hstep := stroke_of_inside hc hsingle hx
    have hafter : (s.after x).IsSingle := Stroke.isSingle_after hsingle (hc _ _ x hx)
    obtain ⟨c', hc'⟩ := ih (hc.put s.row s.col hafter)
      fun t ht ↦ hfits t (List.mem_cons_of_mem _ ht)
    refine ⟨c', ?_, hc'.wires_eq, hc'.width_eq, hc'.allSingle, fun row col ↦ ?_⟩
    · rw [strokeAll, hstep]
      exact hc'.run
    · rw [hc'.cell?_eq, cell?_put]
      -- The stroke is the first one of its own cell, and none of any other cell.
      by_cases hat : s.row = row ∧ s.col = col
      · obtain ⟨rfl, rfl⟩ := hat
        rw [if_pos ⟨hinside, rfl, rfl⟩, strokesAt_cons_of_at ⟨rfl, rfl⟩, hx]
        rfl
      · rw [if_neg fun h ↦ hat ⟨h.2.1.symm, h.2.2.symm⟩, strokesAt_cons_of_not_at hat]

end Canvas

end WireDiagram
