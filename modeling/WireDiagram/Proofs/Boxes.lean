import WireDiagram.Operator.Drawing
import WireDiagram.Proofs.Area
import WireDiagram.Proofs.Painting

/-!
# Strokes of boxes and lines

Where the strokes of a box and of the lines to its controls are, and what kind of stroke is where.
Three kinds matter:

- the frame, which on the rows of its edges is one merge for each cell (`Box.strokesAt_frame`) and
  between them only overwrites;
- what is written inside (`Box.Inscribes`), which only overwrites and never touches an edge;
- leads, the dots and vertical lines of controls (`Stroke.IsLead`), which stay outside of the box
  and end on its edge with an overwrite.

So each cell sees strokes of one kind only, apart from the end of a lead, and there the merge of the
edge comes first, on a blank.
-/

namespace WireDiagram

theorem nodup_intRange (start stop : Int) : (intRange start stop).Nodup := by
  rw [intRange, List.Nodup, List.pairwise_map]
  exact List.nodup_range.imp fun hne h ↦ hne (by omega)

/-- What gives nothing may be left out of a `flatMap`. -/
theorem flatMap_filter_eq {α β : Type} {l : List α} {f : α → List β} {p : α → Bool}
    (h : ∀ x ∈ l, ¬p x = true → f x = []) : (l.filter p).flatMap f = l.flatMap f := by
  induction l with
  | nil => rfl
  | cons x l ih =>
    have hrest := ih fun y hy ↦ h y (List.mem_cons_of_mem x hy)
    by_cases hx : p x = true
    · rw [List.filter_cons_of_pos hx, List.flatMap_cons, List.flatMap_cons, hrest]
    · rw [List.filter_cons_of_neg hx, List.flatMap_cons, h x List.mem_cons_self hx,
        List.nil_append, hrest]

/-- In a `flatMap` where one element alone gives anything, only that element counts. -/
theorem flatMap_eq_ite {α β : Type} [DecidableEq α] {l : List α} (hnodup : l.Nodup)
    {f : α → List β} {a : α} (h : ∀ x ∈ l, x ≠ a → f x = []) :
    l.flatMap f = if a ∈ l then f a else [] := by
  have hfilter : l.filter (· == a) = List.replicate (if a ∈ l then 1 else 0) a := by
    rw [List.filter_beq, hnodup.count]
  rw [← flatMap_filter_eq fun x hx hne ↦ h x hx fun heq ↦ hne (beq_iff_eq.mpr heq), hfilter]
  split
  · exact List.append_nil (f a)
  · rfl

/-! ## Leads -/

/-- Whether a stroke is a dot or a piece of a vertical line. -/
def Stroke.IsLead (s : Stroke) : Prop :=
  (∃ row col, s = .put row col (.glyph .dot)) ∨ ∃ row col, s = .merge row col (.glyph .line)

theorem Stroke.IsLead.isSingle {s : Stroke} (h : s.IsLead) : s.cell.IsSingle := by
  rcases h with ⟨row, col, rfl⟩ | ⟨row, col, rfl⟩ <;> trivial

/-- What leads leave of a fresh cell. -/
def Cell.IsLed (x : Cell) : Prop :=
  x = Cell.blank ∨ x = .glyph .wire ∨ x = .glyph .line ∨ x = .glyph .cross ∨ x = .glyph .dot

theorem Cell.isLed_fresh (row : Int) : (Cell.fresh row).IsLed := by
  unfold Cell.fresh
  split
  · exact Or.inr (Or.inl rfl)
  · exact Or.inl rfl

/-- **Leads join.** On a cell that has seen nothing but leads, so does every further one. -/
theorem Cell.joinsAll_of_leads {strokes : List Stroke} (h : ∀ s ∈ strokes, s.IsLead) :
    ∀ {x : Cell}, x.IsLed → x.JoinsAll strokes := by
  induction strokes with
  | nil => intro x _; trivial
  | cons s strokes ih =>
    intro x hx
    have hrest : ∀ s ∈ strokes, s.IsLead := fun s hs ↦ h s (List.mem_cons_of_mem _ hs)
    -- A dot overwrites the cell; a line over one of the five cells gives one of them again.
    rcases h s List.mem_cons_self with ⟨row, col, rfl⟩ | ⟨row, col, rfl⟩
    · exact ih hrest (Or.inr (Or.inr (Or.inr (Or.inr rfl))))
    · rcases hx with rfl | rfl | rfl | rfl | rfl
      · have hline := overlay_of_merge (merge_blank_left (.glyph .line))
        exact ⟨.blank _, ih hrest (Or.inr (Or.inr (Or.inl hline)))⟩
      · exact ⟨.lineOnWire, ih hrest (Or.inr (Or.inr (Or.inr (Or.inl rfl))))⟩
      · have hline := overlay_of_merge (merge_self (.glyph .line))
        exact ⟨.same _, ih hrest (Or.inr (Or.inr (Or.inl hline)))⟩
      · exact ⟨.lineOnCross, ih hrest (Or.inr (Or.inr (Or.inr (Or.inl rfl))))⟩
      · exact ⟨.lineOnDot, ih hrest (Or.inr (Or.inr (Or.inr (Or.inr rfl))))⟩

theorem mem_lineStrokes_iff {s : Stroke} {col start stop : Int} :
    s ∈ lineStrokes col start stop ↔
      ∃ row, (start ≤ row ∧ row < stop) ∧ s = .merge row col (.glyph .line) := by
  simp only [lineStrokes, List.mem_map, mem_intRange_iff, eq_comm]

/-- A control and its line lie between its wire and the nearer of two rows, which they leave alone.
-/
theorem mem_controlStrokes {s : Stroke} {col row top bottom : Int}
    (hrow : row < top ∨ bottom < row) (h : s ∈ controlStrokes col row top bottom) :
    s.IsLead ∧ s.col = col ∧
      (row ≤ s.row ∧ s.row < top ∨ bottom < s.row ∧ s.row ≤ row) := by
  rw [controlStrokes, List.mem_cons] at h
  rcases h with rfl | h
  · exact ⟨Or.inl ⟨row, col, rfl⟩, rfl, by simp only [Stroke.row]; omega⟩
  · split at h
    · obtain ⟨i, hi, rfl⟩ := mem_lineStrokes_iff.mp h
      exact ⟨Or.inr ⟨i, col, rfl⟩, rfl, Or.inl (by simp only [Stroke.row]; omega)⟩
    · obtain ⟨i, hi, rfl⟩ := mem_lineStrokes_iff.mp h
      exact ⟨Or.inr ⟨i, col, rfl⟩, rfl, Or.inr (by simp only [Stroke.row]; omega)⟩

namespace Box

variable {b : Box}

/-- The row of an edge. -/
def edge (b : Box) : Side → Int
  | .upper => b.top
  | .lower => b.bottom

/-- A lead outside of a box ends on the nearer edge. -/
theorem mem_attachStrokes {s : Stroke} {col row : Int} (hrow : row < b.top ∨ b.bottom < row)
    (h : s ∈ b.attachStrokes col row) :
    s.cell.IsSingle ∧ s.col = col ∧
      (s.IsLead ∧ (row ≤ s.row ∧ s.row < b.top ∨ b.bottom < s.row ∧ s.row ≤ row) ∨
        s.IsPut ∧ (row < b.top ∧ s.row = b.top ∨ b.bottom < row ∧ s.row = b.bottom)) := by
  rw [attachStrokes, List.mem_append] at h
  rcases h with h | h
  · obtain ⟨hlead, hcol, hrows⟩ := mem_controlStrokes hrow h
    exact ⟨hlead.isSingle, hcol, Or.inl ⟨hlead, hrows⟩⟩
  · split at h
    · rename_i habove
      rw [List.mem_singleton.mp h]
      exact ⟨trivial, rfl, Or.inr ⟨⟨_, _, _, rfl⟩, Or.inl ⟨habove, rfl⟩⟩⟩
    · rename_i habove
      rw [List.mem_singleton.mp h]
      refine ⟨trivial, rfl, Or.inr ⟨⟨_, _, _, rfl⟩, Or.inr ⟨?_, rfl⟩⟩⟩
      omega

/-! ## Inside a box -/

/-- Strokes that only overwrite, and only between the edges. -/
def Inscribes (b : Box) (strokes : List Stroke) : Prop :=
  ∀ s ∈ strokes, s.IsPut ∧ s.cell.IsSingle ∧ (b.top < s.row ∧ s.row < b.bottom) ∧
    b.left ≤ s.col ∧ s.col ≤ b.right

theorem inscribes_nil : b.Inscribes [] := fun _ hs ↦ absurd hs List.not_mem_nil

theorem inscribes_cons {row col : Int} {x : Cell} {strokes : List Stroke} (hx : x.IsSingle)
    (hrow : b.top < row ∧ row < b.bottom) (hcol : b.left ≤ col ∧ col ≤ b.right)
    (h : b.Inscribes strokes) : b.Inscribes (.put row col x :: strokes) := by
  rintro s (_ | ⟨_, hs⟩)
  · exact ⟨⟨row, col, x, rfl⟩, hx, hrow, hcol⟩
  · exact h s hs

theorem Inscribes.append {xs ys : List Stroke} (hx : b.Inscribes xs) (hy : b.Inscribes ys) :
    b.Inscribes (xs ++ ys) := by
  intro s hs
  rcases List.mem_append.mp hs with hs | hs
  · exact hx s hs
  · exact hy s hs

theorem inscribes_flatMap {α : Type} {l : List α} {f : α → List Stroke}
    (h : ∀ a ∈ l, b.Inscribes (f a)) : b.Inscribes (l.flatMap f) := by
  intro s hs
  obtain ⟨a, ha, hs⟩ := List.mem_flatMap.mp hs
  exact h a ha s hs

theorem inscribes_walls (hwide : b.left < b.right) : b.Inscribes b.walls := by
  refine inscribes_flatMap fun row hrow ↦ ?_
  rw [mem_intRange_iff] at hrow
  have hrows : b.top < row ∧ row < b.bottom := by omega
  refine inscribes_cons trivial hrows (by omega) (inscribes_cons trivial hrows (by omega) ?_)
  rw [List.map_eq_flatMap]
  refine inscribes_flatMap fun col hcol ↦ ?_
  rw [mem_intRange_iff] at hcol
  exact inscribes_cons (Cell.isSingle_ofChar ' ') hrows (by omega) inscribes_nil

theorem inscribes_targetMarks (hwide : b.left < b.right) (marked : Bool) {targets : List Int}
    (h : ∀ w ∈ targets, b.top < wireRow w ∧ wireRow w < b.bottom) :
    b.Inscribes (b.targetMarks marked targets) := by
  refine inscribes_flatMap fun w hw ↦ Inscribes.append ?_ ?_
  · exact inscribes_cons trivial (h w hw) (by omega)
      (inscribes_cons trivial (h w hw) (by omega) inscribes_nil)
  · split
    · exact inscribes_cons (Cell.isSingle_ofChar '>') (h w hw) (by omega) inscribes_nil
    · exact inscribes_nil

theorem inscribes_controlMarks (hwide : b.left < b.right) {controls : List Int}
    (h : ∀ w ∈ controls, b.top < wireRow w ∧ wireRow w < b.bottom) :
    b.Inscribes (b.controlMarks controls) := by
  refine inscribes_flatMap fun w hw ↦ ?_
  refine inscribes_cons trivial (h w hw) (by omega) ?_
  refine inscribes_cons trivial (h w hw) (by omega) ?_
  exact inscribes_cons trivial (h w hw) (by omega) inscribes_nil

theorem inscribes_labelStrokes (htall : b.top + 2 ≤ b.bottom) {col : Int} {label : String}
    (hcol : b.left ≤ col) (hfit : col + label.length ≤ b.right) :
    b.Inscribes (b.labelStrokes col label) := by
  rw [labelStrokes, List.map_eq_flatMap]
  refine inscribes_flatMap fun ⟨ch, k⟩ hmem ↦ ?_
  have hk : k < label.length := by
    rw [← String.length_toList]
    have := List.mem_zipIdx hmem
    omega
  have hrow : b.top < b.labelRow ∧ b.labelRow < b.bottom := by
    rw [labelRow]
    omega
  exact inscribes_cons (Cell.isSingle_ofChar ch) hrow (by omega) inscribes_nil

/-! ## The frame -/

/-- A stroke of a frame: it keeps to the rows and columns of the box, and between the edges it
overwrites. -/
structure Keeps (b : Box) (s : Stroke) : Prop where
  /-- The stroke draws a single cell. -/
  isSingle : s.cell.IsSingle
  /-- The stroke is in a row of the box. -/
  row_mem : b.top ≤ s.row ∧ s.row ≤ b.bottom
  /-- The stroke is in a column of the box. -/
  col_mem : b.left ≤ s.col ∧ s.col ≤ b.right
  /-- Between the edges the stroke overwrites. -/
  isPut : b.top < s.row → s.row < b.bottom → s.IsPut

theorem keeps_edge (htall : b.top ≤ b.bottom) (side : Side) {col : Int}
    (hcol : b.left ≤ col ∧ col ≤ b.right) (g : Glyph) :
    b.Keeps (.merge (b.edge side) col (.glyph g)) where
  isSingle := trivial
  row_mem := by
    cases side with
    | upper => exact ⟨Int.le_refl _, htall⟩
    | lower => exact ⟨htall, Int.le_refl _⟩
  col_mem := hcol
  isPut hlt hlt' := by
    cases side with
    | upper => exact absurd hlt (Int.lt_irrefl _)
    | lower => exact absurd hlt' (Int.lt_irrefl _)

/-- The frame keeps to the rows and columns of its box, and between the edges it only overwrites. -/
theorem keeps_of_mem_frame {s : Stroke} (htall : b.top ≤ b.bottom) (hwide : b.left < b.right)
    (h : s ∈ b.frame) : b.Keeps s := by
  rw [frame, List.mem_append, List.mem_append] at h
  rcases h with (h | h) | h
  · simp only [edges, List.mem_flatMap, mem_intRange_iff, List.mem_cons, List.not_mem_nil,
      or_false] at h
    obtain ⟨col, hcol, rfl | rfl⟩ := h
    · exact keeps_edge htall .upper (by omega) _
    · exact keeps_edge htall .lower (by omega) _
  · obtain ⟨hput, hsingle, hrow, hcol⟩ := inscribes_walls hwide s h
    exact ⟨hsingle, by omega, hcol, fun _ _ ↦ hput⟩
  · simp only [corners, List.mem_cons, List.not_mem_nil, or_false] at h
    rcases h with rfl | rfl | rfl | rfl
    · exact keeps_edge htall .upper (by omega) _
    · exact keeps_edge htall .lower (by omega) _
    · exact keeps_edge htall .upper (by omega) _
    · exact keeps_edge htall .lower (by omega) _

theorem strokesAt_edges (htall : b.top < b.bottom) (side : Side) (col : Int) :
    strokesAt (b.edge side) col b.edges =
      if b.left < col ∧ col < b.right then [.merge (b.edge side) col (.glyph .wire)] else [] := by
  have hother : ∀ x ∈ intRange (b.left + 1) b.right, x ≠ col →
      strokesAt (b.edge side) col
        [.merge b.top x (.glyph .wire), .merge b.bottom x (.glyph .wire)] = [] := by
    intro x _ hx
    refine strokesAt_eq_nil fun s hs ↦ ?_
    simp only [List.mem_cons, List.not_mem_nil, or_false] at hs
    rcases hs with rfl | rfl <;> exact fun h ↦ hx h.2
  rw [edges, strokesAt_flatMap, flatMap_eq_ite (nodup_intRange _ _) hother]
  by_cases hcol : b.left < col ∧ col < b.right
  · rw [if_pos hcol, if_pos (mem_intRange_iff.mpr (by omega))]
    have hne : b.top ≠ b.bottom := by omega
    cases side <;> simp [strokesAt, edge, Stroke.row, Stroke.col, hne, hne.symm]
  · rw [if_neg hcol, if_neg fun h ↦ hcol ?_]
    have := mem_intRange_iff.mp h
    omega

theorem strokesAt_corners (htall : b.top < b.bottom) (hwide : b.left < b.right) (side : Side)
    (col : Int) :
    strokesAt (b.edge side) col b.corners =
      if col = b.left then [.merge (b.edge side) col (.glyph side.leftCorner)]
      else if col = b.right then [.merge (b.edge side) col (.glyph side.rightCorner)] else [] := by
  have hne : b.top ≠ b.bottom := by omega
  have hne' : b.left ≠ b.right := by omega
  by_cases hleft : col = b.left
  · subst hleft
    rw [if_pos rfl]
    cases side <;>
      simp [corners, strokesAt, edge, Stroke.row, Stroke.col, Side.leftCorner, hne, hne.symm,
        hne'.symm]
  · rw [if_neg hleft]
    by_cases hright : col = b.right
    · subst hright
      rw [if_pos rfl]
      cases side <;>
        simp [corners, strokesAt, edge, Stroke.row, Stroke.col, Side.rightCorner, hne, hne.symm,
          hne']
    · rw [if_neg hright]
      refine strokesAt_eq_nil fun s hs ↦ ?_
      simp only [corners, List.mem_cons, List.not_mem_nil, or_false] at hs
      rcases hs with rfl | rfl | rfl | rfl
      · exact fun h ↦ hleft h.2.symm
      · exact fun h ↦ hleft h.2.symm
      · exact fun h ↦ hright h.2.symm
      · exact fun h ↦ hright h.2.symm

/-- **An edge is one merge in each of its cells.** -/
theorem strokesAt_frame (htall : b.top < b.bottom) (hwide : b.left < b.right) (side : Side)
    (col : Int) :
    strokesAt (b.edge side) col b.frame =
      ((edgeMark b.left b.right side col).toList.map fun g ↦
        .merge (b.edge side) col (.glyph g)) := by
  have hwalls : strokesAt (b.edge side) col b.walls = [] := by
    refine strokesAt_eq_nil fun s hs ↦ ?_
    have hrow := (inscribes_walls hwide s hs).2.2.1
    cases side <;> simp only [edge] <;> omega
  rw [frame, strokesAt_append, strokesAt_append, hwalls, List.append_nil,
    strokesAt_edges htall, strokesAt_corners htall hwide, edgeMark]
  by_cases hleft : col = b.left
  · rw [if_pos hleft, if_pos hleft, if_neg (by omega)]
    rfl
  · rw [if_neg hleft, if_neg hleft]
    by_cases hright : col = b.right
    · rw [if_pos hright, if_pos hright, if_neg (by omega)]
      rfl
    · rw [if_neg hright, if_neg hright, List.append_nil]
      split <;> rfl

end Box

end WireDiagram
