import Mathlib.Algebra.Ring.Nat
import Mathlib.Data.List.Count
import Mathlib.Data.List.ProdSigma
import Mathlib.Data.Prod.Basic
import WireDiagram.Proofs.Arrangement
import WireDiagram.Proofs.Panels
import WireDiagram.Proofs.Reading
import WireDiagram.Proofs.Reflection

/-!
# No mark is lost

A diagram has one dot for every control and two crosses for every swap, neither more nor fewer
(`Trace.exists_tallies`).

## Tokens

Dots and crosses are tokens (`Cell.IsToken`): no merge makes one out of other marks. So a cell holds
a token only if some stroke has drawn it there, and only controls and ends of swaps are drawn with
tokens (`Instruction.mem_tokens_of_mem_strokes`). Each of them is still there when everything has
been drawn, since leads and the insides of boxes are left alone. And each has a cell of its own,
since no two operators take up a wire in the same column.
-/

namespace WireDiagram

/-! ## Counting cells -/

theorem sum_map_ite {α : Type} (l : List α) (p : α → Prop) [DecidablePred p] (n : Nat) :
    (l.map fun a ↦ if p a then n else 0).sum = n * l.countP fun a ↦ decide (p a) := by
  induction l with
  | nil => rfl
  | cons a l ih =>
    rw [List.map_cons, List.sum_cons, ih, List.countP_cons]
    by_cases ha : p a
    · simp [ha, Nat.mul_add, Nat.add_comm]
    · simp [ha]

namespace Canvas

variable {c : Canvas} {x : Cell}

/-- The number of cells of a canvas that hold a given one. -/
def count (c : Canvas) (x : Cell) : Nat :=
  c.rows.flatten.count x

/-- The coordinates of a canvas, row by row. -/
def coordinates (c : Canvas) : List (Nat × Nat) :=
  List.range c.height ×ˢ List.range c.width

theorem mem_coordinates_iff {p : Nat × Nat} :
    p ∈ c.coordinates ↔ c.Inside (p.1 : Int) (p.2 : Int) := by
  rw [coordinates, List.mem_product, List.mem_range, List.mem_range, height]
  show _ ↔ (0 ≤ (p.1 : Int) ∧ (p.1 : Int) < (2 * c.wires + 1 : Nat)) ∧ 0 ≤ (p.2 : Int) ∧ _
  omega

/-- The cells of all rows, looked up one by one. -/
theorem map_some_flatten_rows (c : Canvas) :
    c.rows.flatten.map some = c.coordinates.map fun p ↦ c.cell? p.1 p.2 := by
  have hcoordinates : c.coordinates =
      (List.range c.height).flatMap fun r ↦ (List.range c.width).map (Prod.mk r) := rfl
  rw [List.map_flatten, map_some_rows, hcoordinates, List.map_flatMap, List.flatMap]
  simp only [List.map_map]
  rfl

/-- **There are as many cells of a kind as places where one is**, if no place is listed twice. -/
theorem count_eq_length {places : List (Int × Int)} (hnodup : places.Nodup)
    (h : ∀ row col, c.cell? row col = some x ↔ (row, col) ∈ places) :
    c.count x = places.length := by
  have hcount : c.count x =
      (c.coordinates.filter fun p ↦ c.cell? p.1 p.2 == some x).length := by
    rw [count, ← List.count_map_of_injective _ some (fun _ _ ↦ Option.some.inj),
      map_some_flatten_rows, List.count, List.countP_map, List.countP_eq_length_filter]
    rfl
  let toPlace : Nat × Nat → Int × Int := Prod.map Int.ofNat Int.ofNat
  have hinjective : Function.Injective toPlace :=
    Function.Injective.prodMap (fun _ _ ↦ Int.ofNat.inj) fun _ _ ↦ Int.ofNat.inj
  have hperm : ((c.coordinates.filter fun p ↦ c.cell? p.1 p.2 == some x).map toPlace).Perm
      places := by
    refine (List.perm_ext_iff_of_nodup ?_ hnodup).mpr fun ⟨row, col⟩ ↦ ?_
    · exact ((List.nodup_range.product List.nodup_range).filter _).map hinjective
    · rw [← h, List.mem_map]
      constructor
      · rintro ⟨p, hp, heq⟩
        obtain ⟨rfl, rfl⟩ := Prod.mk.inj heq
        exact beq_iff_eq.mp (List.mem_filter.mp hp).2
      · intro hcell
        obtain ⟨⟨hrow, -⟩, hcol, -⟩ := inside_of_cell? hcell
        have hplace : toPlace (row.toNat, col.toNat) = (row, col) :=
          Prod.ext (Int.toNat_of_nonneg hrow) (Int.toNat_of_nonneg hcol)
        refine ⟨(row.toNat, col.toNat), List.mem_filter.mpr ⟨?_, ?_⟩, hplace⟩
        · rw [mem_coordinates_iff, Int.toNat_of_nonneg hrow, Int.toNat_of_nonneg hcol]
          exact inside_of_cell? hcell
        · rw [beq_iff_eq, Int.toNat_of_nonneg hrow, Int.toNat_of_nonneg hcol]
          exact hcell
  rw [hcount, ← hperm.length_eq, List.length_map]

end Canvas

/-! ## Tokens on one cell -/

namespace Cell

/-- Whether a cell is a dot or one end of a swap. -/
def IsToken : Cell → Prop
  | .glyph .dot => True
  | .glyph .swapMark => True
  | _ => False

variable {x y : Cell}

theorem not_isToken_fresh (row : Int) : ¬(fresh row).IsToken := by
  unfold fresh
  split
  · exact id
  · exact id

theorem underLine_of_isToken (h : x.underLine.IsToken) : x.underLine = x := by
  revert h
  unfold underLine
  split
  · exact fun _ ↦ rfl
  · exact False.elim
  · exact False.elim
  · exact False.elim

theorem join_of_isToken (h : (x.join y).IsToken) : x.join y = y := by
  revert h
  unfold join
  split
  case h_7 => exact fun _ ↦ rfl
  all_goals exact False.elim

/-- **A merge makes no token** that has not been there or been drawn. -/
theorem overlay_of_isToken (h : (x.overlay y).IsToken) : x.overlay y = x ∨ x.overlay y = y := by
  cases hmerge : x.merge y with
  | error fault =>
    rw [overlay, hmerge]
    exact Or.inl rfl
  | ok z =>
    rw [overlay_of_merge hmerge] at h ⊢
    have hrules := hmerge
    unfold merge at hrules
    split at hrules
    · exact Or.inl (Except.ok.inj hrules).symm
    split at hrules
    · exact Or.inr (Except.ok.inj hrules).symm
    split at hrules
    · exact Or.inl (Except.ok.inj hrules).symm
    split at hrules
    · obtain rfl := Except.ok.inj hrules
      exact Or.inl (underLine_of_isToken h)
    rename_i hxy hx hy hl
    rcases ha : x.rank with fault | a
    · rw [ha] at hrules
      contradiction
    rcases hb : y.rank with fault | b
    · rw [ha, hb] at hrules
      contradiction
    rw [merge_of_rank hxy hx hy hl ha hb] at hmerge
    obtain rfl := Except.ok.inj hmerge
    by_cases hlt : b < a
    · rw [if_pos hlt] at h ⊢
      exact Or.inl (join_of_isToken h)
    · rw [if_neg hlt] at h ⊢
      exact Or.inr (join_of_isToken h)

theorem exists_of_isToken_inked {strokes : List Stroke} (h : (x.inked strokes).IsToken) :
    x.inked strokes = x ∨ ∃ s ∈ strokes, s.cell = x.inked strokes := by
  induction strokes generalizing x with
  | nil => exact Or.inl rfl
  | cons s strokes ih =>
    show (s.after x).inked strokes = x ∨ ∃ s' ∈ s :: strokes, s'.cell = (s.after x).inked strokes
    rcases ih (x := s.after x) h with heq | ⟨s', hs', heq⟩
    · have htoken : (s.after x).IsToken := heq ▸ h
      rw [heq]
      cases s with
      | put row col y => exact Or.inr ⟨_, List.mem_cons_self, rfl⟩
      | merge row col y =>
        exact (overlay_of_isToken htoken).imp id fun hy ↦ ⟨_, List.mem_cons_self, hy.symm⟩
    · exact Or.inr ⟨s', List.mem_cons_of_mem s hs', heq⟩

end Cell

/-! ## Tokens among strokes -/

theorem Box.not_isToken_of_mem_frame {b : Box} {s : Stroke} (h : s ∈ b.frame) :
    ¬s.cell.IsToken := by
  rw [frame, List.mem_append, List.mem_append] at h
  rcases h with (h | h) | h
  · simp only [edges, List.mem_flatMap, List.mem_cons, List.not_mem_nil, or_false] at h
    obtain ⟨_, -, rfl | rfl⟩ := h <;> exact id
  · obtain ⟨_, -, rfl | rfl | ⟨_, -, rfl⟩⟩ := mem_walls_iff.mp h <;> exact id
  · simp only [corners, List.mem_cons, List.not_mem_nil, or_false] at h
    rcases h with rfl | rfl | rfl | rfl <;> exact id

theorem Box.not_isToken_of_mem_labelStrokes {b : Box} {s : Stroke} {col : Int} {label : String}
    (h : s ∈ b.labelStrokes col label) : ¬s.cell.IsToken := by
  obtain ⟨_, _, -, rfl⟩ := mem_labelStrokes_iff.mp h
  exact id

theorem Box.not_isToken_of_mem_targetMarks {b : Box} {s : Stroke} {marked : Bool}
    {targets : List Int} (h : s ∈ b.targetMarks marked targets) : ¬s.cell.IsToken := by
  rw [targetMarks_eq] at h
  obtain ⟨w, -, m, hm, rfl⟩ := mem_rowMarks_iff.mp h
  rw [targetRow] at hm
  split at hm
  · simp only [List.mem_cons, List.not_mem_nil, or_false] at hm
    rcases hm with rfl | rfl | rfl <;> exact id
  · simp only [List.mem_cons, List.not_mem_nil, or_false] at hm
    rcases hm with rfl | rfl <;> exact id

theorem eq_of_isToken_of_mem_controlStrokes {s : Stroke} {col row top bottom : Int}
    (htall : top ≤ bottom) (h : s ∈ controlStrokes col row top bottom) (hs : s.cell.IsToken) :
    s = .put row col (.glyph .dot) := by
  rcases (mem_controlStrokes_iff htall).mp h with rfl | ⟨_, -, rfl⟩
  · rfl
  · exact hs.elim

namespace Instruction

variable {i : Instruction} {label : String} {left : Int} {s : Stroke} {g : Glyph}

/-- The column of the dots of an operator placed in column `left`. -/
def dotColumn (i : Instruction) (left : Int) : Int :=
  match i.shape with
  | .plainBox _ => left + 1
  | .controlledBox _ => i.midColumn left
  | .swap => left + 1

/-- The wires and columns of the tokens of one kind that an operator has, placed in column `left`.
-/
def tokens (i : Instruction) (left : Int) : Glyph → List (Int × Int)
  | .dot => i.operator.controls.map fun w ↦ (w, i.dotColumn left)
  | .swapMark => if i.shape = .swap then i.operator.targets.map fun w ↦ (w, left + 1) else []
  | _ => []

theorem mem_tokens_dot {w : Int} (hw : w ∈ i.operator.controls) :
    (w, i.dotColumn left) ∈ i.tokens left .dot :=
  List.mem_map_of_mem hw

theorem exists_control_of_plainBox (hshape : i.shape = .plainBox label)
    (h : s ∈ i.plainBoxStrokes left label) (hs : s.cell.IsToken) :
    ∃ w ∈ i.operator.controls, s = .put (wireRow w) (left + 1) (.glyph .dot) := by
  rw [plainBoxStrokes_eq hshape, Panel.strokes] at h
  simp only [List.mem_append] at h
  rcases h with h | (h | h) | h
  · exact absurd hs (Box.not_isToken_of_mem_frame h)
  · exact absurd hs (Box.not_isToken_of_mem_targetMarks h)
  · rw [Box.controlMarks_eq] at h
    obtain ⟨w, hw, m, hm, rfl⟩ := mem_rowMarks_iff.mp h
    simp only [Box.controlRow, List.mem_cons, List.not_mem_nil, or_false] at hm
    rcases hm with rfl | rfl | rfl
    · exact hs.elim
    · exact ⟨w, hw, rfl⟩
    · exact hs.elim
  · exact absurd hs (Box.not_isToken_of_mem_labelStrokes h)

theorem exists_control_of_controlledBox (h : s ∈ i.controlledBoxStrokes left label)
    (hs : s.cell.IsToken) :
    ∃ w ∈ i.operator.controls, s = .put (wireRow w) (i.midColumn left) (.glyph .dot) := by
  have htall := (i.isIn_targetBox left).top_lt_bottom
  simp only [controlledBoxStrokes, List.mem_append] at h
  rcases h with h | (h | h) | h
  · exact absurd hs (Box.not_isToken_of_mem_frame h)
  · exact absurd hs (Box.not_isToken_of_mem_targetMarks h)
  · obtain ⟨w, hw, h⟩ := List.mem_flatMap.mp h
    refine ⟨w, mem_controls_operator_iff.mpr ⟨w, hw, rfl⟩, ?_⟩
    rcases List.mem_append.mp h with h | h
    · exact eq_of_isToken_of_mem_controlStrokes (Int.le_of_lt htall) h hs
    · split at h
      · rw [List.mem_singleton.mp h] at hs
        exact hs.elim
      · rw [List.mem_singleton.mp h] at hs
        exact hs.elim
  · exact absurd hs (Box.not_isToken_of_mem_labelStrokes h)

theorem exists_wire_of_swap {first last : Nat} (heq : i.sortedTargets = [first, last])
    (hlt : first < last) (h : s ∈ i.swapStrokesOf left first last) (hs : s.cell.IsToken) :
    (∃ w ∈ i.operator.controls, s = .put (wireRow w) (left + 1) (.glyph .dot)) ∨
      ∃ w ∈ i.operator.targets, s = .put (wireRow w) (left + 1) (.glyph .swapMark) := by
  have htargets : ∀ w ∈ [first, last], (w : Int) ∈ i.operator.targets := by
    rw [targets_operator, heq]
    exact fun w hw ↦ List.mem_map_of_mem hw
  rcases mem_swapStrokesOf_iff.mp h with ((rfl | ⟨_, -, rfl⟩) | rfl) | ⟨w, hw, h⟩
  · exact Or.inr ⟨first, htargets first List.mem_cons_self, rfl⟩
  · exact hs.elim
  · exact Or.inr ⟨last, htargets last (List.mem_cons_of_mem first List.mem_cons_self), rfl⟩
  · refine Or.inl ⟨w, hw, eq_of_isToken_of_mem_controlStrokes ?_ h hs⟩
    simp only [wireRow]
    omega

/-- **Tokens are drawn on controls and ends of swaps**, and nowhere else. -/
theorem mem_tokens_of_mem_strokes {count : Nat} (hwires : ∀ w ∈ i.wires, w < count)
    (h : s ∈ (i.operator.placedAt left).strokes count) (hs : s.cell.IsToken) :
    ∃ g, ∃ p ∈ i.tokens left g, s = .put (wireRow p.1) p.2 (.glyph g) := by
  cases hshape : i.shape with
  | plainBox label =>
    rw [strokes_plainBox hwires hshape] at h
    obtain ⟨w, hw, rfl⟩ := exists_control_of_plainBox hshape h hs
    refine ⟨.dot, _, mem_tokens_dot hw, ?_⟩
    simp only [dotColumn, hshape]
  | controlledBox label =>
    rw [strokes_controlledBox hwires hshape] at h
    obtain ⟨w, hw, rfl⟩ := exists_control_of_controlledBox h hs
    refine ⟨.dot, _, mem_tokens_dot hw, ?_⟩
    simp only [dotColumn, hshape]
  | swap =>
    obtain ⟨first, last, heq, hlt⟩ := exists_targets_of_isSwap (isSwap_of_shape hshape)
    rw [strokes_swap hwires hshape heq] at h
    rcases exists_wire_of_swap heq hlt h hs with ⟨w, hw, rfl⟩ | ⟨w, hw, rfl⟩
    · refine ⟨.dot, _, mem_tokens_dot hw, ?_⟩
      simp only [dotColumn, hshape]
    · refine ⟨.swapMark, (w, left + 1), ?_, rfl⟩
      rw [tokens, if_pos hshape]
      exact List.mem_map_of_mem hw

theorem nodup_tokens (i : Instruction) (left : Int) (g : Glyph) : (i.tokens left g).Nodup := by
  have hnodup : ∀ {wires : List Nat} {col : Int}, wires.Nodup →
      ((wires.map Int.ofNat).map fun w ↦ (w, col)).Nodup := fun h ↦
    (h.map fun _ _ ↦ Int.ofNat.inj).map fun _ _ heq ↦ (Prod.mk.inj heq).1
  unfold tokens
  split
  · rw [controls_operator]
    exact hnodup i.controls_nodup
  · split
    · rw [targets_operator]
      exact hnodup ((List.mergeSort_perm i.targets _).nodup_iff.mpr i.targets_nodup)
    · exact List.nodup_nil
  · exact List.nodup_nil

theorem takes_of_mem_tokens {p : Int × Int} (hp : p ∈ i.tokens left g) :
    (i.area left).Takes p.1 p.2 := by
  have hwidth := i.three_le_width
  have hmid := i.midColumn_mem left
  unfold tokens at hp
  split at hp
  · obtain ⟨w, hw, rfl⟩ := List.mem_map.mp hp
    refine ⟨mem_span_of_mem_controls hw, ?_⟩
    simp only [area, dotColumn]
    split <;> omega
  · split at hp
    · obtain ⟨w, hw, rfl⟩ := List.mem_map.mp hp
      rw [targets_operator] at hw
      obtain ⟨v, hv, rfl⟩ := List.mem_map.mp hw
      refine ⟨mem_span_of_mem_targets (mem_sortedTargets_iff.mp hv), ?_⟩
      simp only [area]
      omega
    · exact absurd hp List.not_mem_nil
  · exact absurd hp List.not_mem_nil

theorem length_tokens_swapMark :
    (i.tokens left .swapMark).length = if i.shape = .swap then 2 else 0 := by
  rw [tokens]
  split
  · rename_i hshape
    obtain ⟨first, last, heq, -⟩ := exists_targets_of_isSwap (isSwap_of_shape hshape)
    rw [List.length_map, targets_operator, heq]
    rfl
  · rfl

theorem length_tokens_dot : (i.tokens left .dot).length = i.controls.length := by
  rw [tokens, List.length_map, controls_operator, List.length_map]

end Instruction

/-! ## Tokens of a diagram -/

namespace Trace

variable {t : Trace} {c : Canvas} {i : Instruction} {left : Int} {g : Glyph}

/-- **Every token is there in the end.** -/
theorem cell?_of_mem_tokens (hdraws : t.Draws c) (hi : i ∈ t.instructions)
    (hop : i.operator.placedAt left ∈ t.placed) {p : Int × Int} (hp : p ∈ i.tokens left g) :
    c.cell? (wireRow p.1) p.2 = some (.glyph g) := by
  unfold Instruction.tokens at hp
  split at hp
  · obtain ⟨w, hw, rfl⟩ := List.mem_map.mp hp
    cases hshape : i.shape with
    | plainBox label =>
      simp only [Instruction.dotColumn, hshape]
      exact (showsInnerBox hdraws hi hop hshape).dotted w hw
    | controlledBox label =>
      obtain ⟨left', mid, right, low, high, hbox⟩ := exists_connectsBox hdraws hop hshape
      obtain rfl : i.midColumn left = mid :=
        (Prod.mk.inj (Prod.mk.inj (Except.ok.inj hbox.columns_eq)).2).1
      simp only [Instruction.dotColumn, hshape]
      exact (hbox.controls w hw).1
    | swap =>
      obtain ⟨left', first, last, hswap⟩ := exists_connectsSwap hdraws hop hshape
      obtain rfl : left = left' := Except.ok.inj hswap.column_eq
      simp only [Instruction.dotColumn, hshape]
      exact (hswap.controls w hw).1
  · split at hp
    · rename_i hshape
      obtain ⟨w, hw, rfl⟩ := List.mem_map.mp hp
      obtain ⟨left', first, last, hswap⟩ := exists_connectsSwap hdraws hop hshape
      obtain rfl : left = left' := Except.ok.inj hswap.column_eq
      exact hswap.marks w hw
    · exact absurd hp List.not_mem_nil
  · exact absurd hp List.not_mem_nil

/-- The wires and columns of all tokens of one kind. -/
def tokens (t : Trace) (g : Glyph) : List (Int × Int) :=
  t.entries.flatMap fun e ↦ e.2.tokens (Slot.column t.slots e.1) g

theorem placedAt_mem_placed {e : Slot × Instruction} (he : e ∈ t.entries) :
    e.2.operator.placedAt (Slot.column t.slots e.1) ∈ t.placed := by
  rw [placed_eq_map]
  exact List.mem_map_of_mem he

theorem map_snd_entries (t : Trace) : t.entries.map Prod.snd = t.instructions :=
  List.map_snd_zip (Nat.le_of_eq t.length_slots.symm)

/-- **No two tokens are in one place.** -/
theorem nodup_tokens (t : Trace) (g : Glyph) : (t.tokens g).Nodup := by
  refine List.nodup_flatMap.mpr ⟨fun e _ ↦ e.2.nodup_tokens _ g, ?_⟩
  have hapart := t.pairwise_placed
  rw [placed_eq_map, List.pairwise_map] at hapart
  refine hapart.imp fun {e e'} h p hp hp' ↦ ?_
  have hareas := h _ _ (Instruction.area?_placedAt _) (Instruction.area?_placedAt _)
  exact hareas.not_takes p.1 p.2
    ⟨Instruction.takes_of_mem_tokens hp, Instruction.takes_of_mem_tokens hp'⟩

/-- **A cell holds a token just where there is one.** -/
theorem cell?_eq_token_iff (hdraws : t.Draws c) (hg : (Cell.glyph g).IsToken) {row col : Int} :
    c.cell? row col = some (.glyph g) ↔ ∃ p ∈ t.tokens g, (wireRow p.1, p.2) = (row, col) := by
  constructor
  · intro hcell
    have hinside : (Canvas.fresh t.wireCount t.width).Inside row col := by
      have h := Canvas.inside_of_cell? hcell
      rwa [Canvas.Inside, hdraws.wires_eq, hdraws.width_eq] at h
    have hinked := Option.some.inj ((cell?_of_inked hdraws hinside).symm.trans hcell)
    -- A fresh cell holds no token, so the one that is there has been drawn by some operator.
    rcases Cell.exists_of_isToken_inked (hinked ▸ hg) with hfresh | ⟨s, hs, hcells⟩
    · rw [hinked] at hfresh
      exact absurd (hfresh ▸ hg) (Cell.not_isToken_fresh row)
    · obtain ⟨hmem, rfl, rfl⟩ := mem_strokesAt_iff.mp hs
      obtain ⟨op, hop, hmem⟩ := List.mem_flatMap.mp hmem
      rw [placed_eq_map] at hop
      obtain ⟨e, he, rfl⟩ := List.mem_map.mp hop
      rw [hinked] at hcells
      obtain ⟨g', p, hp, rfl⟩ := Instruction.mem_tokens_of_mem_strokes
        (t.wires_lt e.2 (mem_instructions_of_mem_entries he)) hmem (hcells ▸ hg)
      obtain rfl : g' = g := Cell.glyph.inj hcells
      exact ⟨p, List.mem_flatMap.mpr ⟨e, he, hp⟩, rfl⟩
  · rintro ⟨p, hp, heq⟩
    obtain ⟨rfl, rfl⟩ := Prod.mk.inj heq
    obtain ⟨e, he, hp⟩ := List.mem_flatMap.mp hp
    exact cell?_of_mem_tokens hdraws (mem_instructions_of_mem_entries he)
      (placedAt_mem_placed he) hp

theorem sum_entries (t : Trace) (f : Instruction → Nat) :
    (t.entries.map fun e ↦ f e.2).sum = (t.instructions.map f).sum := by
  rw [← map_snd_entries, List.map_map]
  rfl

theorem count_token (hdraws : t.Draws c) (hg : (Cell.glyph g).IsToken) {f : Instruction → Nat}
    (hf : ∀ i left, (i.tokens left g).length = f i) :
    c.count (.glyph g) = (t.instructions.map f).sum := by
  have hinjective : Function.Injective fun p : Int × Int ↦ (wireRow p.1, p.2) := by
    intro p q heq
    obtain ⟨hrow, hcol⟩ := Prod.mk.inj heq
    exact Prod.ext (wireRow_injective hrow) hcol
  rw [Canvas.count_eq_length ((t.nodup_tokens g).map hinjective) fun row col ↦
      (cell?_eq_token_iff hdraws hg).trans List.mem_map.symm,
    List.length_map, tokens, List.length_flatMap, ← sum_entries]
  simp only [hf]

/-- **No mark is lost and none is made up** in the diagram of a trace. -/
theorem exists_tallies (t : Trace) :
    (t.HasCanvas ∧ ∃ d, Diagram.ofTrace t = .ok d ∧
      d.canvas.count (.glyph .dot) = (t.instructions.map fun i ↦ i.controls.length).sum ∧
      d.canvas.count (.glyph .swapMark) =
        2 * t.instructions.countP fun i ↦ decide (i.shape = .swap)) ∨
    (¬t.HasCanvas ∧ Diagram.ofTrace t = .error t.canvasRefusal) := by
  refine exists_ofTrace_or fun c hdraws ↦ ⟨?_, ?_⟩
  · exact count_token (g := .dot) hdraws trivial fun i left ↦ i.length_tokens_dot
  · rw [← sum_map_ite]
    exact count_token (g := .swapMark) hdraws trivial fun i left ↦ i.length_tokens_swapMark

end Trace

end WireDiagram
