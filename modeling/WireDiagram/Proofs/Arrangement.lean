import WireDiagram.Proofs.Capacity
import WireDiagram.Proofs.Schedule

/-!
# Arrangements

Layers and columns together put every operator of a trace at a place of its own. What that means is
`IsArrangement`: layers are columns of operators that share no wire, every operator is a member
once and stands in the middle of its layer, and operators that meet stand from left to right in
their order, so that nothing ever takes a wire and a column twice.

The layout of a trace is known in closed form, so the whole statement is read off its slots
(`Trace.exists_isArrangement`). Only the widths of layers need the trace: a layer is as wide as its
widest member because no operator is without columns.
-/

namespace WireDiagram

/-! ## What an arrangement is -/

/-- Whether a layer is column `k` of an arrangement of some operators. -/
structure Layer.IsColumn (l : Layer) (ops : List Operator) (k : Nat) : Prop where
  /-- Layers are numbered from left to right. -/
  index_eq : l.index = k
  /-- There is an operator in the layer. -/
  members_ne_nil : l.members ≠ []
  /-- Members are in the order of the operators. -/
  members_lt : l.members.Pairwise (· < ·)
  /-- Members have no wire in common. -/
  not_meetAt : ∀ i j : Nat, (i : Int) ∈ l.members → (j : Int) ∈ l.members → i ≠ j →
    ¬MeetAt ops i j
  /-- No member is wider than the layer. -/
  width_le : ∀ (j : Nat) (op : Operator), (j : Int) ∈ l.members → ops[j]? = some op →
    op.width ≤ l.width
  /-- Some member is as wide as the layer. -/
  exists_width : ∃ (j : Nat) (op : Operator), (j : Int) ∈ l.members ∧ ops[j]? = some op ∧
    op.width = l.width

/-- Whether an operator stands in the middle of `width` columns, the first of them at `offset`: on
the right it leaves as much room as on the left, or one column more. -/
def Operator.IsCentredIn (op : Operator) (offset width : Int) : Prop :=
  ∃ left mid right, op.columns = .ok (left, mid, right) ∧
    (offset ≤ left ∧ right < offset + width) ∧
      (offset + width - 1 - right = left - offset ∨ offset + width - 1 - right = left - offset + 1)

/-- Whether an area takes up a wire in a column. -/
def Area.Takes (a : Area) (wire col : Int) : Prop :=
  (a.span.low ≤ wire ∧ wire ≤ a.span.high) ∧ a.left ≤ col ∧ col ≤ a.right

theorem Area.Apart.not_takes {a b : Area} (h : a.Apart b) (wire col : Int) :
    ¬(a.Takes wire col ∧ b.Takes wire col) := by
  rintro ⟨⟨hwire, hcol⟩, hwire', hcol'⟩
  rcases h with hcols | ⟨hspans, -⟩
  · omega
  · refine hspans (Span.meets_iff.mpr ?_)
    omega

/-- The area of the operator at a place. -/
def areaAt? (ops : List Operator) (j : Nat) : Option Area :=
  ops[j]?.bind Operator.area?

/-- Whether layers, and the operators that placement leaves, are an arrangement of some operators.
-/
structure IsArrangement (ops : List Operator) (layers : List Layer) (placed : List Operator)
    (total : Int) : Prop where
  /-- Layers are columns. -/
  isColumn : ∀ (k : Nat) (l : Layer), layers[k]? = some l → l.IsColumn ops k
  /-- Placement goes through the members of all layers, and these are the operators, each of them
  once. -/
  members_perm : (layers.flatMap Layer.members).Perm ((List.range ops.length).map Int.ofNat)
  /-- No operator has been placed before. -/
  column?_eq : ∀ op ∈ ops, op.column? = none
  /-- No operator is lost. -/
  length_placed : placed.length = ops.length
  /-- A member is placed, and nothing else about it changes, in the middle of the columns of its
  layer, which follow those of the layers before. -/
  isCentredIn : ∀ (k : Nat) (l : Layer) (j : Nat) (op : Operator), layers[k]? = some l →
    (j : Int) ∈ l.members → ops[j]? = some op → ∃ left, placed[j]? = some (op.placedAt left) ∧
      (op.placedAt left).IsCentredIn (totalWidth ((layers.take k).map Layer.width)) l.width
  /-- The layers stand side by side. -/
  total_eq : total = totalWidth (layers.map Layer.width)
  /-- Of two operators that meet, the earlier one ends before the later one starts. -/
  right_lt_left : ∀ i j, i < j → j < ops.length → ∃ a b, areaAt? placed i = some a ∧
    areaAt? placed j = some b ∧ (MeetAt ops i j → a.right < b.left)
  /-- Two operators never take up the same wire in the same column. -/
  not_takes : ∀ i j a b, i ≠ j → areaAt? placed i = some a → areaAt? placed j = some b →
    ∀ wire col, ¬(a.Takes wire col ∧ b.Takes wire col)

/-! ## Layers of slots -/

namespace Slot

variable {slots : List Slot}

theorem members_lt (slots : List Slot) (k : Nat) :
    (layer slots k).members.Pairwise (· < ·) := by
  refine List.pairwise_map.mpr ((List.pairwise_lt_range.filter _).imp fun hlt ↦ ?_)
  exact Int.ofNat_lt.mpr hlt

theorem level_of_mem_members {k j : Nat} {s : Slot} (hj : (j : Int) ∈ (layer slots k).members)
    (hs : slots[j]? = some s) : s.level = k := by
  obtain ⟨j', s', hj', hs', hlevel⟩ := mem_members_layer_iff.mp hj
  obtain rfl := Int.ofNat.inj hj'
  rw [hs, Option.some.injEq] at hs'
  rw [hs', hlevel]

theorem levelIn_of_mem_members {k m : Nat} (h : (m : Int) ∈ (layer slots k).members) :
    m < slots.length ∧ levelIn (layers slots) m = k := by
  obtain ⟨j, s, hj, hs, hlevel⟩ := mem_members_layer_iff.mp h
  obtain rfl := Int.ofNat.inj hj
  exact ⟨(List.getElem?_eq_some_iff.mp hs).1, (levelIn_layers hs).trans hlevel⟩

/-- **The layers of slots divide them up.** -/
theorem members_perm (slots : List Slot) :
    ((layers slots).flatMap Layer.members).Perm ((List.range slots.length).map Int.ofNat) := by
  have hnodup : ((layers slots).flatMap Layer.members).Nodup := by
    rw [layers, List.flatMap_map]
    refine List.pairwise_flatMap.mpr ⟨fun k _ ↦ (members_lt slots k).imp Int.ne_of_lt, ?_⟩
    refine List.pairwise_lt_range.imp fun {k m} hkm x hx y hy hxy ↦ ?_
    -- A slot has one level, so no two layers hold it.
    subst hxy
    obtain ⟨j, s, rfl, hs, hk⟩ := mem_members_layer_iff.mp hx
    exact Nat.ne_of_lt hkm (hk.symm.trans (level_of_mem_members hy hs))
  have hnodup' : ((List.range slots.length).map Int.ofNat).Nodup := by
    refine List.pairwise_map.mpr (List.nodup_range.imp fun hne heq ↦ hne (Int.ofNat.inj heq))
  rw [List.perm_ext_iff_of_nodup hnodup hnodup']
  intro m
  rw [List.mem_flatMap, List.mem_map]
  constructor
  · rintro ⟨l, hl, hm⟩
    obtain ⟨k, -, rfl⟩ := List.mem_map.mp hl
    obtain ⟨j, s, rfl, hs, -⟩ := mem_members_layer_iff.mp hm
    exact ⟨j, List.mem_range.mpr (List.getElem?_eq_some_iff.mp hs).1, rfl⟩
  · rintro ⟨j, hj, rfl⟩
    have hs : slots[j]? = some _ := List.getElem?_eq_getElem (List.mem_range.mp hj)
    refine ⟨_, List.mem_map_of_mem (List.mem_range.mpr (level_lt_height (List.mem_of_getElem? hs))),
      mem_members_layer_iff.mpr ⟨j, _, rfl, hs, rfl⟩⟩

theorem totalWidth_take_layers {k : Nat} (hk : k ≤ height slots) :
    totalWidth (((layers slots).take k).map Layer.width) = offset slots k := by
  rw [layers, ← List.map_take, List.take_range, Nat.min_eq_left hk, List.map_map, offset]
  rfl

theorem exists_width_eq {s : Slot} (hs : s ∈ slots) (hpos : 0 < s.width) :
    ∃ s' ∈ slots, s'.level = s.level ∧ s'.width = layerWidth slots s.level := by
  by_contra hnone
  have hle := width_le_layerWidth hs
  -- Otherwise the layer would do with one column less.
  have hle' : layerWidth slots s.level ≤ layerWidth slots s.level - 1 := by
    refine layerWidth_le_iff.mpr ⟨by omega, fun s' hs' hlevel ↦ ?_⟩
    have hwidth := hlevel ▸ width_le_layerWidth hs'
    have hne : s'.width ≠ layerWidth slots s.level := fun heq ↦ hnone ⟨s', hs', hlevel, heq⟩
    omega
  omega

theorem isCentredIn_column {s : Slot} (hs : s ∈ slots) {op : Operator}
    (hwidth : s.width = op.width) :
    (op.placedAt (column slots s)).IsCentredIn (offset slots s.level)
      (layerWidth slots s.level) := by
  have hle := width_le_layerWidth hs
  refine ⟨column slots s, _, column slots s + op.width - 1, rfl, ?_, ?_⟩
  · rw [column]
    omega
  · rw [column]
    omega

end Slot

/-! ## Operators of a trace -/

theorem MeetAt.symm {ops : List Operator} {i j : Nat} (h : MeetAt ops i j) : MeetAt ops j i := by
  obtain ⟨s, s', hs, hs', hmeets⟩ := h
  exact ⟨s', s, hs', hs, by rwa [Span.meets_comm]⟩

namespace Trace

variable {t : Trace}

theorem isLeveling_operators (t : Trace) :
    IsLeveling t.operators.length (MeetAt t.operators) (levelIn (Slot.layers t.slots)) :=
  isLeveling_layers fun op hop ↦ (t.exists_span_operators op hop).imp fun _ h ↦ h.1

theorem exists_operator {j : Nat} {s : Slot} (hs : t.slots[j]? = some s) :
    ∃ op, t.operators[j]? = some op ∧ s.width = op.width ∧ 0 < op.width ∧
      t.placed[j]? = some (op.placedAt (Slot.column t.slots s)) := by
  obtain ⟨i, -, hi, -, hwidth, hplaced⟩ := exists_of_getElem?_slots hs
  refine ⟨i.operator, ?_, hwidth, Int.lt_of_lt_of_le (by decide) i.three_le_width, hplaced⟩
  rw [operators, List.getElem?_map, hi, Option.map_some]

theorem exists_slot_of_operator {j : Nat} {op : Operator} (hop : t.operators[j]? = some op) :
    ∃ s, t.slots[j]? = some s ∧ s.width = op.width ∧
      t.placed[j]? = some (op.placedAt (Slot.column t.slots s)) := by
  have hlt := (List.getElem?_eq_some_iff.mp hop).1
  rw [← length_slotsOf] at hlt
  obtain ⟨op', hop', hwidth, -, hplaced⟩ := exists_operator (List.getElem?_eq_getElem hlt)
  rw [hop, Option.some.injEq] at hop'
  subst hop'
  exact ⟨_, List.getElem?_eq_getElem hlt, hwidth, hplaced⟩

theorem areaAt?_placed {j : Nat} {s : Slot} (hs : t.slots[j]? = some s) :
    areaAt? t.placed j = some (Slot.area t.slots s) := by
  obtain ⟨op, hop, hsettled⟩ := isSettled hs
  rw [areaAt?, hop]
  exact hsettled.area?_eq

/-- **Layers of a trace are columns.** -/
theorem isColumn_layer {k : Nat} (hk : k < Slot.height t.slots) :
    (Slot.layer t.slots k).IsColumn t.operators k where
  index_eq := rfl
  members_ne_nil := by
    obtain ⟨j, s, hs, hlevel⟩ := Slot.exists_getElem?_pack hk
    exact List.ne_nil_of_mem (Slot.mem_members_layer_iff.mpr ⟨j, s, rfl, hs, hlevel⟩)
  members_lt := Slot.members_lt _ _
  not_meetAt i j hi hj hne hmeet := by
    obtain ⟨hi, hi'⟩ := Slot.levelIn_of_mem_members hi
    obtain ⟨hj, hj'⟩ := Slot.levelIn_of_mem_members hj
    rw [slots, ← slotsOf, length_slotsOf] at hi hj
    have h := t.isLeveling_operators
    -- Whichever of the two comes first is in an earlier layer.
    rcases Nat.lt_or_gt_of_ne hne with hij | hji
    · exact Nat.ne_of_lt (h.level_lt hij hj hmeet) (hi'.trans hj'.symm)
    · exact Nat.ne_of_lt (h.level_lt hji hi hmeet.symm) (hj'.trans hi'.symm)
  width_le j op hj hop := by
    obtain ⟨s, hs, hwidth, -⟩ := exists_slot_of_operator hop
    rw [← hwidth, ← Slot.level_of_mem_members hj hs]
    exact Slot.width_le_layerWidth (List.mem_of_getElem? hs)
  exists_width := by
    obtain ⟨j, s, hs, rfl⟩ := Slot.exists_getElem?_pack hk
    obtain ⟨op, -, hwidth, hpos, -⟩ := exists_operator hs
    obtain ⟨s', hs', hlevel, hwidth'⟩ :=
      Slot.exists_width_eq (List.mem_of_getElem? hs) (hwidth ▸ hpos)
    obtain ⟨m, hm⟩ := List.getElem?_of_mem hs'
    obtain ⟨op, hop, hopwidth, -⟩ := exists_operator hm
    exact ⟨m, op, Slot.mem_members_layer_iff.mpr ⟨m, s', rfl, hm, hlevel⟩, hop,
      hopwidth.symm.trans hwidth'⟩

theorem isCentredIn_layers {k : Nat} {l : Layer} {j : Nat} {op : Operator}
    (hl : (Slot.layers t.slots)[k]? = some l) (hj : (j : Int) ∈ l.members)
    (hop : t.operators[j]? = some op) :
    ∃ left, t.placed[j]? = some (op.placedAt left) ∧ (op.placedAt left).IsCentredIn
      (totalWidth (((Slot.layers t.slots).take k).map Layer.width)) l.width := by
  obtain ⟨hk, rfl⟩ := Slot.getElem?_layers.mp hl
  obtain ⟨s, hs, hwidth, hplaced⟩ := exists_slot_of_operator hop
  have hlevel := Slot.level_of_mem_members hj hs
  subst hlevel
  rw [Slot.totalWidth_take_layers (Nat.le_of_lt hk)]
  exact ⟨_, hplaced, Slot.isCentredIn_column (List.mem_of_getElem? hs) hwidth⟩

theorem right_lt_left_placed {i j : Nat} (hij : i < j) (hj : j < t.operators.length) :
    ∃ a b, areaAt? t.placed i = some a ∧ areaAt? t.placed j = some b ∧
      (MeetAt t.operators i j → a.right < b.left) := by
  rw [← length_slotsOf] at hj
  have hs : t.slots[i]? = some _ := List.getElem?_eq_getElem (Nat.lt_trans hij hj)
  have hs' : t.slots[j]? = some _ := List.getElem?_eq_getElem hj
  refine ⟨_, _, areaAt?_placed hs, areaAt?_placed hs', fun hmeet ↦ ?_⟩
  refine Slot.right_lt_left (List.getElem_mem _) (List.getElem_mem _) ?_
  rw [← Slot.levelIn_layers hs, ← Slot.levelIn_layers hs']
  exact t.isLeveling_operators.level_lt hij (length_slotsOf t.operators ▸ hj) hmeet

/-- **No two operators take up a wire in the same column.** -/
theorem not_takes_placed {i j : Nat} {a b : Area} (hne : i ≠ j)
    (ha : areaAt? t.placed i = some a) (hb : areaAt? t.placed j = some b) (wire col : Int) :
    ¬(a.Takes wire col ∧ b.Takes wire col) := by
  obtain ⟨op, hop, ha⟩ := Option.bind_eq_some_iff.mp ha
  obtain ⟨op', hop', hb⟩ := Option.bind_eq_some_iff.mp hb
  obtain ⟨hi, rfl⟩ := List.getElem?_eq_some_iff.mp hop
  obtain ⟨hj, rfl⟩ := List.getElem?_eq_some_iff.mp hop'
  have hapart := List.pairwise_iff_getElem.mp t.pairwise_placed
  rcases Nat.lt_or_gt_of_ne hne with hlt | hgt
  · exact (hapart i j hi hj hlt a b ha hb).not_takes wire col
  · exact (hapart j i hj hi hgt b a hb ha).symm.not_takes wire col

theorem isArrangement (t : Trace) : IsArrangement t.operators (Slot.layers t.slots) t.placed
    (Slot.offset t.slots (Slot.height t.slots)) where
  isColumn k l hl := by
    obtain ⟨hk, rfl⟩ := Slot.getElem?_layers.mp hl
    exact isColumn_layer hk
  members_perm := by
    rw [← length_slotsOf]
    exact Slot.members_perm _
  column?_eq op hop := by
    obtain ⟨i, -, rfl⟩ := List.mem_map.mp hop
    rfl
  length_placed := by
    rw [t.length_placed, operators, List.length_map]
  isCentredIn _ _ _ _ hl hj hop := isCentredIn_layers hl hj hop
  total_eq := (Slot.totalWidth_layers _).symm
  right_lt_left _ _ hij hj := right_lt_left_placed hij hj
  not_takes _ _ _ _ hne ha hb := not_takes_placed hne ha hb

/-- **Layers and columns arrange the operators of a trace.** Where there is room for a table with
an entry for every wire, these are the layers of the diagram. -/
theorem exists_isArrangement (t : Trace) : ∃ layers placed total,
    packLayers t.operators t.wireCount = .ok layers ∧
      (t.wireCount ≤ Room.maxEntries → packOn t.operators t.wireCount = .ok layers) ∧
      Placement.ofLayers layers t.operators = ⟨placed, .ok total⟩ ∧
      IsArrangement t.operators layers placed total :=
  ⟨_, _, _, t.packLayers_operators, fun h ↦ t.packOn_eq.trans (if_pos h), ofLayers_eq t,
    t.isArrangement⟩

end Trace

end WireDiagram
