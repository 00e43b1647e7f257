import WireDiagram.Proofs.Boxes

/-!
# Drawings upside down

A drawing is turned upside down by turning every stroke: its row is counted from the other end, and
its mark is replaced by the one that looks like it from below (`Stroke.mirror`). Merging does not
commute with that in general, since ranks do not, but where cells join it does, and so the cells
that turned strokes leave are the turned cells (`Cell.inked_mirror`).

## The order of strokes

A box that is drawn around turned wires is not the turned box stroke by stroke: both are drawn from
top to bottom. The two have the same strokes in every cell, though, and in the same order, and
nothing else matters for what is painted. This is `SameInk`, and it holds of any two orders in which
strokes on different rows change places (`SameInk.flatMap_perm`).
-/

namespace WireDiagram

/-! ## Cells -/

/-- A mark upside down. -/
def Glyph.mirror : Glyph → Glyph
  | .topEdge => .bottomEdge
  | .bottomEdge => .topEdge
  | .topLeft => .bottomLeft
  | .bottomLeft => .topLeft
  | .topRight => .bottomRight
  | .bottomRight => .topRight
  | g => g

/-- A cell upside down. Text stays as it is. -/
def Cell.mirror : Cell → Cell
  | .glyph g => .glyph g.mirror
  | .raw cs => .raw cs

namespace Cell

@[simp] theorem mirror_blank : Cell.blank.mirror = .blank := rfl

theorem mirror_fresh (count : Nat) (row : Int) :
    (Cell.fresh row).mirror = Cell.fresh (2 * count - row) := by
  have hparity : row % 2 = 1 ↔ (2 * (count : Int) - row) % 2 = 1 := by omega
  by_cases hrow : row % 2 = 1
  · rw [fresh, fresh, if_pos hrow, if_pos (hparity.mp hrow)]
    rfl
  · rw [fresh, fresh, if_neg hrow, if_neg fun h ↦ hrow (hparity.mpr h)]
    rfl

/-- **Junctions may be turned.** What two cells leave that join is turned with them. -/
theorem Joins.mirror_overlay {x y : Cell} (h : x.Joins y) :
    (x.overlay y).mirror = x.mirror.overlay y.mirror := by
  cases h with
  | blank y =>
    rw [overlay_of_merge (merge_blank_left y), mirror_blank,
      overlay_of_merge (merge_blank_left y.mirror)]
  | same x => rw [overlay_of_merge (merge_self x), overlay_of_merge (merge_self x.mirror)]
  | cornerOnWire h => rcases h with rfl | rfl | rfl | rfl <;> rfl
  | wireOnCorner h => rcases h with rfl | rfl | rfl | rfl <;> rfl
  | lineOnWire | lineOnCross | lineOnDot | leftDown | leftUp | rightDown | rightUp => rfl

end Cell

/-! ## Strokes -/

/-- A stroke on a canvas of `count` wires, upside down. -/
def Stroke.mirror (count : Nat) : Stroke → Stroke
  | .put row col x => .put (2 * count - row) col x.mirror
  | .merge row col x => .merge (2 * count - row) col x.mirror

@[simp] theorem Stroke.row_mirror (count : Nat) (s : Stroke) :
    (s.mirror count).row = 2 * count - s.row := by
  cases s <;> rfl

@[simp] theorem Stroke.col_mirror (count : Nat) (s : Stroke) : (s.mirror count).col = s.col := by
  cases s <;> rfl

theorem strokesAt_mirror (count : Nat) (row col : Int) (xs : List Stroke) :
    strokesAt (2 * count - row) col (xs.map (Stroke.mirror count)) =
      (strokesAt row col xs).map (Stroke.mirror count) := by
  rw [strokesAt, List.filter_map, strokesAt]
  congr 1
  refine List.filter_congr fun s _ ↦ decide_eq_decide.mpr ?_
  rw [Stroke.row_mirror, Stroke.col_mirror]
  omega

/-- **Turned strokes leave turned cells**, where all merges join. -/
theorem Cell.inked_mirror (count : Nat) {strokes : List Stroke} :
    ∀ {x : Cell}, x.JoinsAll strokes →
      x.mirror.inked (strokes.map (Stroke.mirror count)) = (x.inked strokes).mirror := by
  induction strokes with
  | nil =>
    intro x _
    rfl
  | cons s strokes ih =>
    intro x hx
    cases s with
    | put row col y => exact ih hx
    | merge row col y =>
      show (x.mirror.overlay y.mirror).inked _ = _
      rw [← hx.1.mirror_overlay]
      exact ih hx.2

/-! ## Lists of strokes that come to the same -/

/-- Whether two lists of strokes make the same strokes in every cell, in the same order. -/
def SameInk (xs ys : List Stroke) : Prop :=
  ∀ row col, strokesAt row col xs = strokesAt row col ys

namespace SameInk

variable {xs ys zs xs' ys' : List Stroke}

theorem refl (xs : List Stroke) : SameInk xs xs := fun _ _ ↦ rfl

theorem of_eq (h : xs = ys) : SameInk xs ys := h ▸ refl xs

theorem trans (h : SameInk xs ys) (h' : SameInk ys zs) : SameInk xs zs :=
  fun row col ↦ (h row col).trans (h' row col)

theorem append (h : SameInk xs ys) (h' : SameInk xs' ys') : SameInk (xs ++ xs') (ys ++ ys') := by
  intro row col
  rw [strokesAt_append, strokesAt_append, h row col, h' row col]

theorem flatMap {α : Type} {l : List α} {f g : α → List Stroke}
    (h : ∀ a ∈ l, SameInk (f a) (g a)) : SameInk (l.flatMap f) (l.flatMap g) := by
  induction l with
  | nil => exact refl []
  | cons a l ih =>
    rw [List.flatMap_cons, List.flatMap_cons]
    exact (h a List.mem_cons_self).append (ih fun b hb ↦ h b (List.mem_cons_of_mem a hb))

/-- Strokes on different rows change places freely. -/
theorem append_comm (h : ∀ s ∈ xs, ∀ t ∈ ys, s.row ≠ t.row) : SameInk (xs ++ ys) (ys ++ xs) := by
  intro row col
  rw [strokesAt_append, strokesAt_append]
  by_cases hx : ∃ s ∈ xs, s.row = row
  · obtain ⟨s, hs, rfl⟩ := hx
    have hnil : strokesAt s.row col ys = [] :=
      strokesAt_eq_nil fun t ht hat ↦ h s hs t ht hat.1.symm
    rw [hnil, List.append_nil, List.nil_append]
  · have hnil : strokesAt row col xs = [] :=
      strokesAt_eq_nil fun s hs hat ↦ hx ⟨s, hs, hat.1⟩
    rw [hnil, List.append_nil, List.nil_append]

theorem swap {s t : Stroke} (h : s.row ≠ t.row) : SameInk [s, t] [t, s] := by
  have hsame : SameInk ([s] ++ [t]) ([t] ++ [s]) := append_comm fun s' hs' t' ht' ↦ by
    rwa [List.mem_singleton.mp hs', List.mem_singleton.mp ht']
  exact hsame

/-- **The order of rows does not matter.** -/
theorem flatMap_perm {α : Type} {l l' : List α} (h : l.Perm l') {f : α → List Stroke}
    (hrows : l.Pairwise fun a b ↦ ∀ s ∈ f a, ∀ t ∈ f b, s.row ≠ t.row) :
    SameInk (l.flatMap f) (l'.flatMap f) := by
  induction h with
  | nil => exact refl []
  | cons a h ih => exact (refl (f a)).append (ih (List.pairwise_cons.mp hrows).2)
  | swap a b l =>
    have hba := (List.pairwise_cons.mp hrows).1 a List.mem_cons_self
    simp only [List.flatMap_cons, ← List.append_assoc]
    exact (append_comm hba).append (refl _)
  | trans h₁ h₂ ih₁ ih₂ =>
    have hsymm : ∀ {a b : α}, (∀ s ∈ f a, ∀ t ∈ f b, s.row ≠ t.row) →
        ∀ s ∈ f b, ∀ t ∈ f a, s.row ≠ t.row := fun hab s hs t ht ↦ (hab t ht s hs).symm
    exact (ih₁ hrows).trans (ih₂ ((h₁.pairwise_iff hsymm).mp hrows))

/-- The order of strokes does not matter if no two of them are on one row. -/
theorem of_perm (h : xs.Perm ys) (hrows : xs.Pairwise fun s t ↦ s.row ≠ t.row) : SameInk xs ys := by
  have hsame := flatMap_perm h (f := fun s ↦ [s]) <| hrows.imp fun {s t} hne s' hs' t' ht' ↦ by
    rwa [List.mem_singleton.mp hs', List.mem_singleton.mp ht']
  rwa [List.flatMap_singleton', List.flatMap_singleton'] at hsame

end SameInk

/-! ## Ranges of rows -/

theorem map_sub_intRange_perm (n start stop : Int) :
    ((intRange (start + 1) stop).map fun row ↦ n - row).Perm
      (intRange (n - stop + 1) (n - start)) := by
  have hnodup : ((intRange (start + 1) stop).map fun row ↦ n - row).Nodup :=
    List.pairwise_map.mpr ((nodup_intRange _ _).imp fun hne heq ↦ hne (by omega))
  refine (List.perm_ext_iff_of_nodup hnodup (nodup_intRange _ _)).mpr fun row ↦ ?_
  rw [List.mem_map, mem_intRange_iff]
  constructor
  · rintro ⟨row, hrow, rfl⟩
    have := mem_intRange_iff.mp hrow
    omega
  · intro hrow
    exact ⟨n - row, mem_intRange_iff.mpr (by omega), by omega⟩

theorem sameInk_lineStrokes (count : Nat) (col start stop : Int) :
    SameInk ((lineStrokes col (start + 1) stop).map (Stroke.mirror count))
      (lineStrokes col (2 * count - stop + 1) (2 * count - start)) := by
  have hmap : (lineStrokes col (start + 1) stop).map (Stroke.mirror count) =
      ((intRange (start + 1) stop).map fun row ↦ 2 * (count : Int) - row).map fun row ↦
        .merge row col (.glyph .line) := by
    rw [lineStrokes, List.map_map, List.map_map]
    rfl
  rw [hmap]
  refine .of_perm ((map_sub_intRange_perm _ start stop).map _) ?_
  refine List.pairwise_map.mpr (List.pairwise_map.mpr ?_)
  refine (nodup_intRange _ _).imp fun {i j} hne heq ↦ hne ?_
  simp only [Stroke.row] at heq
  omega

/-! ## Boxes -/

namespace Box

variable {b : Box} {count : Nat}

/-- A box upside down. -/
def mirror (b : Box) (count : Nat) : Box :=
  ⟨2 * count - b.bottom, 2 * count - b.top, b.left, b.right⟩

theorem sameInk_pair (htall : b.top < b.bottom) (col : Int) (x y : Cell) :
    SameInk ([Stroke.merge b.top col x, .merge b.bottom col y].map (Stroke.mirror count))
      [.merge (b.mirror count).top col y.mirror, .merge (b.mirror count).bottom col x.mirror] := by
  refine SameInk.swap ?_
  show 2 * (count : Int) - b.top ≠ 2 * count - b.bottom
  omega

theorem sameInk_edges (htall : b.top < b.bottom) :
    SameInk (b.edges.map (Stroke.mirror count)) (b.mirror count).edges := by
  rw [edges, List.map_flatMap]
  exact SameInk.flatMap fun col _ ↦ sameInk_pair htall col (.glyph .wire) (.glyph .wire)

theorem sameInk_walls : SameInk (b.walls.map (Stroke.mirror count)) (b.mirror count).walls := by
  let wall : Int → List Stroke := fun row ↦
    .put row b.left (.glyph .line) :: .put row b.right (.glyph .line) ::
      (intRange (b.left + 1) b.right).map fun col ↦ .put row col .blank
  have hrow : ∀ row, ∀ s ∈ wall row, s.row = row := by
    intro row s hs
    simp only [wall, List.mem_cons, List.mem_map] at hs
    rcases hs with rfl | rfl | ⟨col, -, rfl⟩ <;> rfl
  have hmap : b.walls.map (Stroke.mirror count) =
      ((intRange (b.top + 1) b.bottom).map fun row ↦ 2 * (count : Int) - row).flatMap wall := by
    rw [walls, List.map_flatMap, List.flatMap_map]
    simp only [wall, List.map_cons, List.map_map]
    rfl
  rw [hmap]
  refine SameInk.flatMap_perm (map_sub_intRange_perm (2 * count) b.top b.bottom) ?_
  refine List.pairwise_map.mpr ((nodup_intRange _ _).imp fun {i j} hne s hs t ht ↦ ?_)
  rw [hrow _ s hs, hrow _ t ht]
  omega

theorem sameInk_corners (htall : b.top < b.bottom) :
    SameInk (b.corners.map (Stroke.mirror count)) (b.mirror count).corners :=
  (sameInk_pair htall b.left (.glyph .topLeft) (.glyph .bottomLeft)).append
    (sameInk_pair htall b.right (.glyph .topRight) (.glyph .bottomRight))

/-- **The frame of a box upside down.** -/
theorem sameInk_frame (htall : b.top < b.bottom) :
    SameInk (b.frame.map (Stroke.mirror count)) (b.mirror count).frame := by
  rw [frame, List.map_append, List.map_append]
  exact ((sameInk_edges htall).append sameInk_walls).append (sameInk_corners htall)

end Box

/-! ## Wires -/

/-- The wire of a diagram with `count` wires that has as many wires above it as a given one has
below. A wire that the diagram does not have stays where it is. -/
def mirrorWire (count wire : Nat) : Nat :=
  if wire < count then count - 1 - wire else wire

section Wires

variable {count : Nat}

theorem mirrorWire_of_lt {wire : Nat} (h : wire < count) :
    mirrorWire count wire = count - 1 - wire :=
  if_pos h

theorem mirrorWire_lt {wire : Nat} (h : wire < count) : mirrorWire count wire < count := by
  rw [mirrorWire_of_lt h]
  omega

theorem mirrorWire_lt_iff {v w : Nat} (hv : v < count) (hw : w < count) :
    mirrorWire count v < mirrorWire count w ↔ w < v := by
  rw [mirrorWire_of_lt hv, mirrorWire_of_lt hw]
  omega

theorem mirrorWire_injective (count : Nat) : Function.Injective (mirrorWire count) := by
  intro v w h
  simp only [mirrorWire] at h
  split at h <;> split at h <;> omega

theorem wireRow_mirrorWire {wire : Nat} (h : wire < count) :
    wireRow (mirrorWire count wire) = 2 * count - wireRow wire := by
  rw [mirrorWire_of_lt h, wireRow, wireRow]
  omega

theorem sameInk_flatMap_wires {wires wires' : List Nat} {f g : Int → List Stroke}
    (hperm : wires'.Perm (wires.map (mirrorWire count))) (hnodup : wires.Nodup)
    (hsame : ∀ w ∈ wires, (f w).map (Stroke.mirror count) = g (mirrorWire count w))
    (hrow : ∀ w : Nat, ∀ s ∈ g w, s.row = wireRow w) :
    SameInk (((wires.map Int.ofNat).flatMap f).map (Stroke.mirror count))
      ((wires'.map Int.ofNat).flatMap g) := by
  have hturned : SameInk (((wires.map Int.ofNat).flatMap f).map (Stroke.mirror count))
      ((wires.map (mirrorWire count)).flatMap fun w : Nat ↦ g w) := by
    rw [List.map_flatMap, List.flatMap_map, List.flatMap_map]
    exact SameInk.flatMap fun w hw ↦ .of_eq (hsame w hw)
  rw [List.flatMap_map (l := wires')]
  refine hturned.trans (SameInk.flatMap_perm hperm.symm ?_)
  refine List.pairwise_map.mpr (hnodup.imp fun {v w} hne s hs t ht heq ↦ hne ?_)
  apply mirrorWire_injective count
  rw [hrow _ s hs, hrow _ t ht, wireRow, wireRow] at heq
  omega

end Wires

/-! ## Inside a box -/

namespace Box

variable {b : Box} {count : Nat}

theorem sameInk_targetMarks (marked : Bool) {targets targets' : List Nat}
    (hperm : targets'.Perm (targets.map (mirrorWire count))) (hnodup : targets.Nodup)
    (hlt : ∀ w ∈ targets, w < count) :
    SameInk ((b.targetMarks marked (targets.map Int.ofNat)).map (Stroke.mirror count))
      ((b.mirror count).targetMarks marked (targets'.map Int.ofNat)) := by
  refine sameInk_flatMap_wires hperm hnodup (fun w hw ↦ ?_) fun w s hs ↦ ?_
  · rw [wireRow_mirrorWire (hlt w hw)]
    cases marked <;> rfl
  · rcases List.mem_append.mp hs with hs | hs
    · simp only [joinWire, List.mem_cons, List.not_mem_nil, or_false] at hs
      rcases hs with rfl | rfl <;> rfl
    · split at hs
      · rw [List.mem_singleton.mp hs]
        rfl
      · contradiction

theorem sameInk_controlMarks {controls : List Nat} (hnodup : controls.Nodup)
    (hlt : ∀ w ∈ controls, w < count) :
    SameInk ((b.controlMarks (controls.map Int.ofNat)).map (Stroke.mirror count))
      ((b.mirror count).controlMarks ((controls.map (mirrorWire count)).map Int.ofNat)) := by
  refine sameInk_flatMap_wires (.refl _) hnodup (fun w hw ↦ ?_) fun w s hs ↦ ?_
  · rw [wireRow_mirrorWire (hlt w hw)]
    rfl
  · simp only [List.mem_cons, List.not_mem_nil, or_false] at hs
    rcases hs with rfl | rfl | rfl <;> rfl

/-- A label stays in the middle, since there is a row in the middle. -/
theorem map_mirror_labelStrokes (heven : (b.top + b.bottom) % 2 = 0) (col : Int) (label : String) :
    (b.labelStrokes col label).map (Stroke.mirror count) =
      (b.mirror count).labelStrokes col label := by
  have hrow : 2 * (count : Int) - b.labelRow = (b.mirror count).labelRow := by
    simp only [labelRow, mirror]
    omega
  rw [labelStrokes, labelStrokes, List.map_map, ← hrow]
  rfl

end Box

/-! ## Controls outside, and swaps -/

section Leads

variable {count : Nat} {col row : Int}

/-- A line that goes up to a box comes down to it upside down. -/
theorem sameInk_controlStrokes {top bottom : Int} (htall : top ≤ bottom)
    (hrow : row < top ∨ bottom < row) :
    SameInk ((controlStrokes col row top bottom).map (Stroke.mirror count))
      (controlStrokes col (2 * count - row) (2 * count - bottom) (2 * count - top)) := by
  rcases hrow with habove | hbelow
  · have hnot : ¬2 * (count : Int) - row < 2 * count - bottom := by omega
    rw [controlStrokes, controlStrokes, if_pos habove, if_neg hnot]
    exact (SameInk.refl [_]).append (sameInk_lineStrokes count col row top)
  · have hlt : 2 * (count : Int) - row < 2 * count - bottom := by omega
    rw [controlStrokes, controlStrokes, if_neg (by omega), if_pos hlt]
    exact (SameInk.refl [_]).append (sameInk_lineStrokes count col bottom row)

theorem Box.sameInk_attachStrokes {b : Box} (htall : b.top ≤ b.bottom)
    (hrow : row < b.top ∨ b.bottom < row) :
    SameInk ((b.attachStrokes col row).map (Stroke.mirror count))
      ((b.mirror count).attachStrokes col (2 * count - row)) := by
  rw [attachStrokes, attachStrokes, List.map_append]
  refine (sameInk_controlStrokes htall hrow).append (.of_eq ?_)
  rcases hrow with habove | hbelow
  · have hnot : ¬2 * (count : Int) - row < (b.mirror count).top := by
      simp only [mirror]
      omega
    rw [if_pos habove, if_neg hnot]
    rfl
  · have hlt : 2 * (count : Int) - row < (b.mirror count).top := by
      simp only [mirror]
      omega
    rw [if_neg (by omega), if_pos hlt]
    rfl

theorem sameInk_swapStrokes {first last : Int} (hlt : first < last) :
    SameInk ((swapStrokes col first last).map (Stroke.mirror count))
      (swapStrokes col (2 * count - last) (2 * count - first)) := by
  let upper : Stroke := .put (2 * count - last) col (.glyph .swapMark)
  let lower : Stroke := .put (2 * count - first) col (.glyph .swapMark)
  let line := (lineStrokes col (first + 1) last).map (Stroke.mirror count)
  have hrow : ∀ s ∈ line, upper.row < s.row ∧ s.row < lower.row := by
    intro s hs
    obtain ⟨s', hs', rfl⟩ := List.mem_map.mp hs
    obtain ⟨i, hi, rfl⟩ := mem_lineStrokes_iff.mp hs'
    show 2 * (count : Int) - last < 2 * count - i ∧ 2 * (count : Int) - i < 2 * count - first
    omega
  have hends : upper.row < lower.row := by
    show 2 * (count : Int) - last < 2 * count - first
    omega
  have hmap : (swapStrokes col first last).map (Stroke.mirror count) =
      [lower] ++ (line ++ [upper]) := by
    rw [swapStrokes, List.map_append]
    rfl
  rw [hmap]
  -- The lower cross is drawn last instead of first, and the upper one first instead of last.
  have hlower : SameInk ([lower] ++ (line ++ [upper])) ((line ++ [upper]) ++ [lower]) := by
    refine SameInk.append_comm fun s hs t ht ↦ ?_
    rw [List.mem_singleton.mp hs]
    rcases List.mem_append.mp ht with ht | ht
    · exact Int.ne_of_gt (hrow t ht).2
    · rw [List.mem_singleton.mp ht]
      exact Int.ne_of_gt hends
  have hupper : SameInk (line ++ [upper]) ([upper] ++ line) := by
    refine SameInk.append_comm fun s hs t ht ↦ ?_
    rw [List.mem_singleton.mp ht]
    exact Int.ne_of_gt (hrow s hs).1
  have hline := (SameInk.refl [upper]).append (sameInk_lineStrokes count col first last)
  exact hlower.trans ((hupper.trans hline).append (.refl [lower]))

end Leads

end WireDiagram
