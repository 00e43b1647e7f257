/-!
# Grids

A rectangle of cells, addressed by integers of any size. The shape is part of the type, so writing
cannot change it, and the contents are the partial map `Grid.cell?` from coordinates to cells: two
lemmas, one for a filled grid and one for writing a cell, are all that is needed of the
representation.
-/

namespace WireDiagram

/-- The integers from `start` up to, not including, `stop`. -/
def intRange (start stop : Int) : List Int :=
  (List.range (stop - start).toNat).map fun (k : Nat) ↦ start + k

theorem mem_intRange_iff {start stop i : Int} :
    i ∈ intRange start stop ↔ start ≤ i ∧ i < stop := by
  simp only [intRange, List.mem_map, List.mem_range]
  constructor
  · rintro ⟨k, hk, rfl⟩
    omega
  · intro h
    exact ⟨(i - start).toNat, by omega, by omega⟩

theorem intRange_of_le {start stop : Int} (h : stop ≤ start) : intRange start stop = [] := by
  simp [intRange, Int.toNat_of_nonpos (by omega : stop - start ≤ 0)]

theorem intRange_of_lt {start stop : Int} (h : start < stop) :
    intRange start stop = start :: intRange (start + 1) stop := by
  have hn : (stop - start).toNat = (stop - (start + 1)).toNat + 1 := by omega
  simp only [intRange, hn, List.range_succ_eq_map, List.map_cons, List.map_map, List.cons.injEq]
  refine ⟨by omega, List.map_congr_left fun k _ ↦ ?_⟩
  simp only [Function.comp_apply]
  omega

/-- Apply a function to one element, in place. -/
def modifyAt {β : Type} {n : Nat} (v : Vector β n) (i : Nat) (f : β → β) : Vector β n :=
  ⟨v.toArray.modify i f, by simp⟩

theorem getElem_modifyAt {β : Type} {n : Nat} (v : Vector β n) (i : Nat) (f : β → β) {j : Nat}
    (hj : j < n) : (modifyAt v i f)[j] = if i = j then f v[j] else v[j] := by
  rcases v with ⟨a, rfl⟩
  simp only [modifyAt, Vector.getElem_mk]
  rw [Array.getElem_modify]

/-- A rectangle of `height` rows and `width` columns. -/
structure Grid (α : Type) (height width : Nat) where
  /-- The rows, from top to bottom. -/
  rows : Vector (Vector α width) height

namespace Grid

variable {α : Type} {height width : Nat}

/-! ## Coordinates -/

/-- Whether a coordinate lies in a rectangle. -/
def Inside (height width : Nat) (row col : Int) : Prop :=
  (0 ≤ row ∧ row < height) ∧ 0 ≤ col ∧ col < width

instance (height width : Nat) (row col : Int) : Decidable (Inside height width row col) :=
  inferInstanceAs (Decidable ((0 ≤ row ∧ row < height) ∧ 0 ≤ col ∧ col < width))

theorem Inside.row_lt {row col : Int} (h : Inside height width row col) : row.toNat < height := by
  have := h.1
  omega

theorem Inside.col_lt {row col : Int} (h : Inside height width row col) : col.toNat < width := by
  have := h.2
  omega

/-- The contents of a grid: the cell at a coordinate inside. -/
def cell? (g : Grid α height width) (row col : Int) : Option α :=
  if h : Inside height width row col then
    have := h.row_lt
    have := h.col_lt
    some g.rows[row.toNat][col.toNat]
  else none

theorem cell?_isSome_iff {g : Grid α height width} {row col : Int} :
    (g.cell? row col).isSome ↔ Inside height width row col := by
  unfold cell?
  split <;> simp [*]

theorem cell?_of_not_inside {g : Grid α height width} {row col : Int}
    (h : ¬Inside height width row col) : g.cell? row col = none :=
  dif_neg h

/-- A grid is determined by its contents. -/
theorem ext_cell? {g h : Grid α height width} (e : ∀ row col, g.cell? row col = h.cell? row col) :
    g = h := by
  rcases g with ⟨gs⟩
  rcases h with ⟨hs⟩
  congr
  apply Vector.ext
  intro r hr
  apply Vector.ext
  intro c hc
  have inside : Inside height width r c := ⟨⟨by omega, by omega⟩, by omega, by omega⟩
  simpa [cell?, inside] using e r c

/-! ## Filling and writing -/

/-- The grid whose rows are constant. -/
def ofRows (height width : Nat) (f : Nat → α) : Grid α height width :=
  ⟨Vector.ofFn fun r ↦ Vector.replicate width (f r)⟩

theorem cell?_ofRows (f : Nat → α) {row col : Int} (h : Inside height width row col) :
    (ofRows height width f).cell? row col = some (f row.toNat) := by
  simp [cell?, h, ofRows]

/-- Put a cell at a coordinate; a coordinate outside is ignored. -/
def put (g : Grid α height width) (row col : Int) (x : α) : Grid α height width :=
  if h : Inside height width row col then
    ⟨modifyAt g.rows row.toNat fun cells ↦ cells.set col.toNat x h.col_lt⟩
  else g

/-- **One cell changes.** Putting a cell changes the contents at its coordinate and nowhere else. -/
theorem cell?_put (g : Grid α height width) (row col : Int) (x : α) (i j : Int) :
    (g.put row col x).cell? i j =
      if Inside height width row col ∧ i = row ∧ j = col then some x else g.cell? i j := by
  by_cases h : Inside height width row col
  · by_cases hij : Inside height width i j
    · have hrow := h.1
      have hcol := h.2
      have hi := hij.1
      have hj := hij.2
      simp only [cell?, dif_pos hij, put, h, true_and, ↓reduceDIte, getElem_modifyAt]
      by_cases hr : i = row
      · subst hr
        by_cases hc : j = col
        · subst hc
          simp
        · have hne : ¬col.toNat = j.toNat := by omega
          simp [hne, hc]
      · have hne : ¬row.toNat = i.toNat := by omega
        simp [hne, hr]
    · rw [cell?_of_not_inside hij, cell?_of_not_inside hij, if_neg]
      rintro ⟨-, rfl, rfl⟩
      exact hij h
  · simp [put, h]

/-! ## All cells -/

/-- Apply a function to every cell. -/
def map {β : Type} (f : α → β) (g : Grid α height width) : Grid β height width :=
  ⟨g.rows.map fun cells ↦ cells.map f⟩

theorem cell?_map {β : Type} (f : α → β) (g : Grid α height width) (row col : Int) :
    (g.map f).cell? row col = (g.cell? row col).map f := by
  unfold cell?
  split <;> simp [map]

theorem map_put {β : Type} (f : α → β) (g : Grid α height width) (row col : Int) (x : α) :
    (g.put row col x).map f = (g.map f).put row col (f x) := by
  apply ext_cell?
  intro i j
  simp only [cell?_map, cell?_put]
  split <;> rfl

/-- The rows as lists. -/
def toLists (g : Grid α height width) : List (List α) :=
  g.rows.toList.map Vector.toList

theorem toLists_map {β : Type} (f : α → β) (g : Grid α height width) :
    (g.map f).toLists = g.toLists.map (List.map f) := by
  simp only [toLists, map, Vector.toList_map, List.map_map]
  exact List.map_congr_left fun cells _ ↦ Vector.toList_map

theorem length_toLists (g : Grid α height width) : g.toLists.length = height := by
  simp [toLists]

theorem length_of_mem_toLists {g : Grid α height width} {cells : List α}
    (h : cells ∈ g.toLists) : cells.length = width := by
  simp only [toLists, List.mem_map] at h
  obtain ⟨v, -, rfl⟩ := h
  simp

end Grid

end WireDiagram
