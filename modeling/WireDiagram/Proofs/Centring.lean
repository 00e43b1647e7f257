import Mathlib.Data.List.Induction
import WireDiagram.Placement
import WireDiagram.Proofs.Levels

/-!
# Centring

Placement writes a column into every member, layer after layer, and stops at a member that is
missing or has one already. On the layers of slots nothing stops it: every operator is a member
once. The column it gets (`Slot.column`) is a function of its own slot and of the widths of the
layers, so the outcome is described for all operators at once and without the loop
(`Placement.ofLayers_layers`).

## The state of the loop

Between two layers exactly the operators of the earlier layers are placed. That is the whole
invariant, and `Slot.stage` is the list of operators that it describes.
-/

namespace WireDiagram

/-- An operator with a given leftmost column, whether it had one before or not. -/
def Operator.placedAt (op : Operator) (left : Int) : Operator :=
  { op with column? := some left }

theorem Operator.place_of_unplaced {op : Operator} (h : op.column? = none) (left : Int) :
    op.place left = .ok (op.placedAt left) := by
  rw [Operator.place, h]
  rfl

namespace Slot

/-- The first column of a layer. -/
def offset (slots : List Slot) (level : Nat) : Int :=
  totalWidth ((List.range level).map (layerWidth slots))

/-- The column that centres a slot in its layer. -/
def column (slots : List Slot) (s : Slot) : Int :=
  offset slots s.level + (layerWidth slots s.level - s.width) / 2

/-- The operator of a slot, placed. -/
def place (slots : List Slot) (s : Slot) (op : Operator) : Operator :=
  op.placedAt (column slots s)

/-- The operators of some slots, of which those in the first `level` layers are placed. -/
def stage (slots : List Slot) (level : Nat) (ops : List Operator) : List Operator :=
  List.zipWith (fun s op ↦ if s.level < level then place slots s op else op) slots ops

/-! ## Columns of layers -/

theorem offset_succ (slots : List Slot) (level : Nat) :
    offset slots (level + 1) = offset slots level + layerWidth slots level := by
  rw [offset, List.range_succ, List.map_append, totalWidth, List.foldl_append]
  rfl

theorem offset_add_layerWidth_le (slots : List Slot) {k m : Nat} (h : k < m) :
    offset slots k + layerWidth slots k ≤ offset slots m := by
  induction m with
  | zero => omega
  | succ m ih =>
    have hnonneg := layerWidth_nonneg slots m
    rw [offset_succ]
    rcases Nat.lt_succ_iff_lt_or_eq.mp h with hlt | rfl
    · have := ih hlt
      omega
    · omega

theorem offset_nonneg (slots : List Slot) (k : Nat) : 0 ≤ offset slots k := by
  induction k with
  | zero => exact Int.le_refl 0
  | succ k ih =>
    have := layerWidth_nonneg slots k
    rw [offset_succ]
    omega

theorem offset_append_le (slots : List Slot) {x : Slot} (hx : 0 ≤ x.width) (level : Nat) :
    offset (slots ++ [x]) level ≤
      offset slots level + if x.level < level then x.width else 0 := by
  induction level with
  | zero => exact Int.le_refl 0
  | succ k ih =>
    have hnonneg := layerWidth_nonneg slots k
    rw [offset_succ, offset_succ, layerWidth_append]
    by_cases hlevel : x.level = k
    · rw [if_neg (by omega)] at ih
      rw [if_pos hlevel, if_pos (by omega)]
      omega
    · by_cases hlt : x.level < k
      · rw [if_pos hlt] at ih
        rw [if_neg hlevel, if_pos (by omega)]
        omega
      · rw [if_neg hlt] at ih
        rw [if_neg hlevel, if_neg (by omega)]
        omega

/-- Layers are at most as wide as all their members side by side. -/
theorem offset_le_totalWidth {slots : List Slot} (h : ∀ s ∈ slots, 0 ≤ s.width) (level : Nat) :
    offset slots level ≤ totalWidth (slots.map Slot.width) := by
  induction slots using List.reverseRecOn with
  | nil =>
    induction level with
    | zero => exact Int.le_refl 0
    | succ k ih =>
      have hzero : layerWidth [] k = 0 := rfl
      rwa [offset_succ, hzero, Int.add_zero]
  | append_singleton slots x ih =>
    obtain ⟨hslots, hx⟩ := List.forall_mem_append.mp h
    have hwidth : 0 ≤ x.width := hx x List.mem_cons_self
    have hle := offset_append_le slots hwidth level
    have hrest := ih hslots
    rw [List.map_append, totalWidth_append, List.map_singleton, totalWidth_singleton]
    split at hle
    · omega
    · omega

theorem totalWidth_layers (slots : List Slot) :
    totalWidth ((layers slots).map Layer.width) = offset slots (height slots) := by
  rw [layers, List.map_map, offset]
  rfl

theorem offset_perm {slots slots' : List Slot} (h : slots.Perm slots') (level : Nat) :
    offset slots level = offset slots' level := by
  rw [offset, offset, funext (layerWidth_perm h)]

/-- Layers of the same widths start at the same columns. -/
theorem column_perm {slots slots' : List Slot} (h : slots.Perm slots') (s : Slot) :
    column slots s = column slots' s := by
  rw [column, column, offset_perm h, layerWidth_perm h]

theorem place_perm {slots slots' : List Slot} (h : slots.Perm slots') :
    place slots = place slots' := by
  funext s op
  rw [place, place, column_perm h]

theorem map_width_layers_perm {slots slots' : List Slot} (h : slots.Perm slots') :
    (layers slots).map Layer.width = (layers slots').map Layer.width := by
  rw [layers, layers, List.map_map, List.map_map, height_perm h]
  exact List.map_congr_left fun k _ ↦ layerWidth_perm h k

/-- **A slot stays in its layer.** -/
theorem column_mem {slots : List Slot} {s : Slot} (h : s ∈ slots) :
    offset slots s.level ≤ column slots s ∧
      column slots s + s.width ≤ offset slots s.level + layerWidth slots s.level := by
  have := width_le_layerWidth h
  rw [column]
  omega

/-! ## Stages -/

theorem getElem?_stage {slots : List Slot} {ops : List Operator} {level j : Nat} {s : Slot}
    {op : Operator} (hs : slots[j]? = some s) (hop : ops[j]? = some op) :
    (stage slots level ops)[j]? = some (if s.level < level then place slots s op else op) := by
  rw [stage, List.getElem?_zipWith, hs, hop]

theorem length_stage {slots : List Slot} {ops : List Operator} {level : Nat}
    (h : slots.length = ops.length) : (stage slots level ops).length = ops.length := by
  rw [stage, List.length_zipWith, h, Nat.min_self]

theorem stage_zero {slots : List Slot} {ops : List Operator} (h : slots.length = ops.length) :
    stage slots 0 ops = ops := by
  refine List.ext_getElem (length_stage h) fun j hj hj' ↦ ?_
  simp [stage]

theorem stage_height {slots : List Slot} (ops : List Operator) :
    stage slots (height slots) ops = List.zipWith (place slots) slots ops := by
  refine List.ext_getElem (by simp [stage]) fun j hj hj' ↦ ?_
  have hlevel : ∀ (hj'' : j < slots.length), (slots[j]).level < height slots := fun hj'' ↦
    level_lt_height (List.getElem_mem hj'')
  simp [stage, hlevel]

end Slot

namespace Placement

open Slot

theorem placeMember_of_unplaced (offset width : Int) {ops : List Operator} {j : Nat}
    {op : Operator} (hop : ops[j]? = some op) (hcolumn : op.column? = none) :
    placeMember offset width ops (Int.ofNat j) =
      .ok (ops.set j (op.placedAt (centred offset width op))) := by
  have hresolve : Position.resolve ops.length (Int.ofNat j) = some j :=
    Position.resolve_natCast (List.getElem?_eq_some_iff.mp hop).1
  rw [placeMember, hresolve]
  simp only [hop, Operator.place_of_unplaced hcolumn]
  rfl

theorem placeMembers_of_unplaced (offset width : Int) {members : List Nat} :
    ∀ {ops : List Operator}, members.Nodup →
      (∀ j ∈ members, ∃ op, ops[j]? = some op ∧ op.column? = none) →
      placeMembers offset width ops (members.map Int.ofNat) =
        (ops.mapIdx fun j op ↦
          if j ∈ members then op.placedAt (centred offset width op) else op, none) := by
  induction members with
  | nil =>
    intro ops _ _
    have hid : (fun (j : Nat) (op : Operator) ↦ if j ∈ ([] : List Nat) then
        op.placedAt (centred offset width op) else op) = fun _ op ↦ op := by
      funext j op
      rw [if_neg List.not_mem_nil]
    rw [List.map_nil, placeMembers, hid, List.mapIdx_eq_zipIdx_map]
    simp
  | cons j members ih =>
    intro ops hnodup hmembers
    obtain ⟨hj, hnodup'⟩ := List.nodup_cons.mp hnodup
    obtain ⟨op, hop, hcolumn⟩ := hmembers j List.mem_cons_self
    have hlt : j < ops.length := (List.getElem?_eq_some_iff.mp hop).1
    have hget : ops[j] = op := (List.getElem?_eq_some_iff.mp hop).2
    have hrest : ∀ k ∈ members,
        ∃ op', (ops.set j (op.placedAt (centred offset width op)))[k]? = some op' ∧
          op'.column? = none := by
      intro k hk
      obtain ⟨op', hop', hcolumn'⟩ := hmembers k (List.mem_cons_of_mem j hk)
      refine ⟨op', ?_, hcolumn'⟩
      have hne : j ≠ k := by
        rintro rfl
        exact hj hk
      rw [List.getElem?_set_ne hne, hop']
    rw [List.map_cons, placeMembers, placeMember_of_unplaced offset width hop hcolumn]
    show placeMembers offset width _ (members.map Int.ofNat) = _
    rw [ih hnodup' hrest, Prod.mk.injEq]
    refine ⟨List.ext_getElem? fun k ↦ ?_, rfl⟩
    rw [List.getElem?_mapIdx, List.getElem?_mapIdx, List.getElem?_set]
    by_cases hk : j = k
    · subst hk
      simp [hlt, hget, hj]
    · rw [if_neg hk]
      simp [Ne.symm hk]

variable {slots : List Slot} {ops : List Operator}

/-- One layer takes the operators from one stage to the next. -/
theorem placeMembers_stage (hwidth : slots.map Slot.width = ops.map Operator.width)
    (hunplaced : ∀ op ∈ ops, op.column? = none) (level : Nat) :
    placeMembers (Slot.offset slots level) (layerWidth slots level) (stage slots level ops)
        ((members slots level).map Int.ofNat) = (stage slots (level + 1) ops, none) := by
  have hlength : slots.length = ops.length := by
    rw [← List.length_map (f := Slot.width), hwidth, List.length_map]
  have hwidthAt : ∀ {j : Nat} {s : Slot} {op : Operator}, slots[j]? = some s →
      ops[j]? = some op → s.width = op.width := by
    intro j s op hs hop
    have := congrArg (fun ws ↦ ws[j]?) hwidth
    simpa [hs, hop] using this
  rw [placeMembers_of_unplaced _ _ (nodup_members slots level) ?_, Prod.mk.injEq]
  · refine ⟨List.ext_getElem? fun j ↦ ?_, rfl⟩
    by_cases hj : j < slots.length
    · obtain ⟨s, hs⟩ : ∃ s, slots[j]? = some s := ⟨_, List.getElem?_eq_getElem hj⟩
      obtain ⟨op, hop⟩ : ∃ op, ops[j]? = some op :=
        ⟨_, List.getElem?_eq_getElem (by omega : j < ops.length)⟩
      have hmem : j ∈ members slots level ↔ s.level = level := by
        rw [mem_members_iff, hs]
        simp
      rw [List.getElem?_mapIdx, getElem?_stage hs hop, getElem?_stage hs hop, Option.map_some]
      rcases Nat.lt_trichotomy s.level level with hlt | heq | hgt
      · rw [if_neg (by rw [hmem]; omega), if_pos hlt, if_pos (by omega)]
      · subst heq
        rw [if_pos (hmem.mpr rfl), if_neg (by omega), if_pos (by omega), place, column, centred,
          hwidthAt hs hop]
      · rw [if_neg (by rw [hmem]; omega), if_neg (by omega), if_neg (by omega)]
    · rw [List.getElem?_eq_none (by simp [length_stage hlength]; omega),
        List.getElem?_eq_none (by simp [length_stage hlength]; omega)]
  · intro j hj
    obtain ⟨s, hs, hlevel⟩ := mem_members_iff.mp hj
    have hlt : j < ops.length := hlength ▸ (List.getElem?_eq_some_iff.mp hs).1
    have hop : ops[j]? = some ops[j] := List.getElem?_eq_getElem hlt
    refine ⟨ops[j], ?_, hunplaced _ (List.getElem_mem hlt)⟩
    rw [getElem?_stage hs hop, if_neg (by omega)]

theorem placeFrom_stage (hwidth : slots.map Slot.width = ops.map Operator.width)
    (hunplaced : ∀ op ∈ ops, op.column? = none) (level count : Nat) :
    placeFrom (Slot.offset slots level) (stage slots level ops)
        ((List.range' level count).map (layer slots)) =
      ⟨stage slots (level + count) ops, .ok (Slot.offset slots (level + count))⟩ := by
  induction count generalizing level with
  | zero => rfl
  | succ count ih =>
    rw [List.range'_succ, List.map_cons, placeFrom]
    simp only [layer]
    rw [placeMembers_stage hwidth hunplaced level]
    show placeFrom (Slot.offset slots level + layerWidth slots level) _ _ = _
    rw [← offset_succ, ← Nat.add_assoc, Nat.add_right_comm]
    exact ih (level + 1)

/-- **Placement of slots.** Every operator is placed, in the column that its slot says, and the
width of all layers is what is reported. -/
theorem ofLayers_layers (hwidth : slots.map Slot.width = ops.map Operator.width)
    (hunplaced : ∀ op ∈ ops, op.column? = none) :
    ofLayers (layers slots) ops =
      ⟨List.zipWith (place slots) slots ops, .ok (Slot.offset slots (height slots))⟩ := by
  have hlength : slots.length = ops.length := by
    rw [← List.length_map (f := Slot.width), hwidth, List.length_map]
  have h := placeFrom_stage hwidth hunplaced 0 (height slots)
  rw [stage_zero hlength, Nat.zero_add, stage_height] at h
  rw [ofLayers, layers, List.range_eq_range']
  exact h

end Placement

end WireDiagram
