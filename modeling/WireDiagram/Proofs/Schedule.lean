import Mathlib.Data.List.Chain
import WireDiagram.Proofs.Levels

/-!
# Least schedules

Packing puts an operator into the first layer after all earlier operators that it meets. No schedule
that keeps the order of operators that meet can put it further to the left, and the layers are as
many as the longest chain of operators of which each meets the next one
(`exists_isLeastSchedule`).

## The rule alone

Neither of these facts needs the table that packing keeps, nor the layers. They follow from a rule
for levels, that each is right above the highest one that it has to be above (`IsLeveling`), by
induction on the place in the list. What is left for packing is to show that its layers keep the
rule, and that is `Slot.level_eq_levelAfter`.
-/

namespace WireDiagram

/-! ## Levels by rule -/

/-- Whether `count` things in order, of which some meet, have the levels that the rule gives them:
each is right above the highest of the earlier ones that it meets, and at the bottom if there are
none. -/
structure IsLeveling (count : Nat) (meet : Nat → Nat → Prop) (level : Nat → Nat) : Prop where
  /-- A thing is above all earlier ones that it meets. -/
  level_lt : ∀ {i j}, i < j → j < count → meet i j → level i < level j
  /-- A thing that is not at the bottom is right above an earlier one that it meets. -/
  exists_below : ∀ {j}, j < count → 0 < level j → ∃ i < j, meet i j ∧ level j = level i + 1

/-- Whether some of `count` things are in order, and each of them meets the next one. -/
def IsMeetingChain (count : Nat) (meet : Nat → Nat → Prop) (chain : List Nat) : Prop :=
  (∀ j ∈ chain, j < count) ∧ chain.IsChain fun i j ↦ i < j ∧ meet i j

namespace IsLeveling

variable {count : Nat} {meet : Nat → Nat → Prop} {level : Nat → Nat}

theorem level_eq_zero (h : IsLeveling count meet level) {j : Nat} (hj : j < count)
    (hmeet : ∀ i < j, ¬meet i j) : level j = 0 := by
  rcases Nat.eq_zero_or_pos (level j) with hzero | hpos
  · exact hzero
  · obtain ⟨i, hij, hi, -⟩ := h.exists_below hj hpos
    exact absurd hi (hmeet i hij)

theorem exists_highest (h : IsLeveling count meet level) {i j : Nat} (hij : i < j) (hj : j < count)
    (hmeet : meet i j) : ∃ top < j, meet top j ∧ level j = level top + 1 ∧
      ∀ k < j, meet k j → level k ≤ level top := by
  have hpos : 0 < level j := Nat.zero_lt_of_lt (h.level_lt hij hj hmeet)
  obtain ⟨top, htop, hmeet', hlevel⟩ := h.exists_below hj hpos
  refine ⟨top, htop, hmeet', hlevel, fun k hk hmeet'' ↦ ?_⟩
  have := h.level_lt hk hj hmeet''
  omega

/-- **The rule gives the least levels** of all that keep the order of things that meet. -/
theorem level_le (h : IsLeveling count meet level) {other : Nat → Nat}
    (hother : ∀ i j, i < j → j < count → meet i j → other i < other j) {j : Nat} (hj : j < count) :
    level j ≤ other j := by
  induction j using Nat.strong_induction_on with
  | _ j ih =>
    rcases Nat.eq_zero_or_pos (level j) with hzero | hpos
    · omega
    · obtain ⟨i, hij, hmeet, hlevel⟩ := h.exists_below hj hpos
      have hle := ih i hij (by omega)
      have hlt := hother i j hij hj hmeet
      omega

theorem exists_chain_to (h : IsLeveling count meet level) {j : Nat} (hj : j < count) :
    ∃ chain, IsMeetingChain count meet (chain ++ [j]) ∧ chain.length = level j := by
  induction j using Nat.strong_induction_on with
  | _ j ih =>
    rcases Nat.eq_zero_or_pos (level j) with hzero | hpos
    · refine ⟨[], ⟨?_, List.isChain_singleton j⟩, hzero.symm⟩
      exact fun k hk ↦ List.mem_singleton.mp hk ▸ hj
    · obtain ⟨i, hij, hmeet, hlevel⟩ := h.exists_below hj hpos
      obtain ⟨chain, ⟨hmem, hchain⟩, hlength⟩ := ih i hij (by omega)
      refine ⟨chain ++ [i], ⟨fun k hk ↦ ?_, ?_⟩, ?_⟩
      · rcases List.mem_append.mp hk with hk | hk
        · exact hmem k hk
        · exact List.mem_singleton.mp hk ▸ hj
      · refine List.isChain_append.mpr ⟨hchain, List.isChain_singleton j, fun x hx y hy ↦ ?_⟩
        rw [List.getLast?_concat, Option.mem_some] at hx
        rw [List.head?_cons, Option.mem_some] at hy
        subst hx hy
        exact ⟨hij, hmeet⟩
      · rw [List.length_append, List.length_singleton, hlength, hlevel]

theorem exists_level_of_chain (h : IsLeveling count meet level) {chain : List Nat} :
    ∀ {i : Nat}, IsMeetingChain count meet (i :: chain) →
      ∃ j < count, level i + chain.length ≤ level j := by
  induction chain with
  | nil => exact fun {i} hchain ↦ ⟨i, hchain.1 i List.mem_cons_self, Nat.le_refl _⟩
  | cons k chain ih =>
    rintro i ⟨hmem, hchain⟩
    obtain ⟨⟨hik, hmeet⟩, hrest⟩ := List.isChain_cons_cons.mp hchain
    have hlt := h.level_lt hik (hmem k (by simp)) hmeet
    obtain ⟨j, hj, hle⟩ := ih ⟨fun j hj ↦ hmem j (List.mem_cons_of_mem i hj), hrest⟩
    refine ⟨j, hj, ?_⟩
    rw [List.length_cons]
    omega

end IsLeveling

/-! ## Slots keep the rule -/

namespace Slot

/-- A span that is not at the bottom is right above a slot that it meets. -/
theorem exists_of_levelAfter_pos {slots : List Slot} {span : Span}
    (h : 0 < levelAfter slots span) :
    ∃ s ∈ slots, s.span.meets span ∧ levelAfter slots span = s.level + 1 := by
  by_contra hnone
  -- Otherwise all slots that meet the span would do with one level less.
  have hle : levelAfter slots span ≤ levelAfter slots span - 1 := by
    refine levelAfter_le_iff.mpr fun s hs hmeets ↦ ?_
    have hlt := level_lt_levelAfter hs hmeets
    have hne : levelAfter slots span ≠ s.level + 1 := fun heq ↦ hnone ⟨s, hs, hmeets, heq⟩
    omega
  omega

/-- **Packing keeps the rule**: every slot is in the first layer after the slots before it. -/
theorem level_eq_levelAfter {items : List (Span × Int)} {j : Nat} {s : Slot}
    (h : (pack [] items)[j]? = some s) :
    s.level = levelAfter ((pack [] items).take j) s.span := by
  have hj : j < items.length := length_pack items ▸ (List.getElem?_eq_some_iff.mp h).1
  have hsplit : items = items.take j ++ items[j] :: items.drop (j + 1) := by
    rw [← List.drop_eq_getElem_cons hj, List.take_append_drop]
  have hlength : (pack [] (items.take j)).length = j := by
    rw [length_pack, List.length_take_of_le (Nat.le_of_lt hj)]
  obtain ⟨more, hmore, -⟩ := exists_pack
    (pack [] (items.take j) ++ [next (pack [] (items.take j)) items[j].1 items[j].2])
    (items.drop (j + 1))
  have hpack : pack [] items = pack [] (items.take j) ++
      (next (pack [] (items.take j)) items[j].1 items[j].2 :: more) := by
    rw [List.append_assoc] at hmore
    calc
      pack [] items = pack (pack [] (items.take j)) (items[j] :: items.drop (j + 1)) := by
        rw [← pack_append, ← hsplit]
      _ = _ := hmore
  rw [hpack, List.getElem?_append_right (Nat.le_of_eq hlength), hlength, Nat.sub_self,
    List.getElem?_cons_zero, Option.some.injEq] at h
  rw [hpack, List.take_left' hlength, ← h]
  rfl

end Slot

/-! ## Operators that meet -/

/-- The slots of some operators. -/
def slotsOf (ops : List Operator) : List Slot :=
  Slot.pack [] (ops.map Operator.item)

/-- The span of the operator at a place. -/
def spanAt? (ops : List Operator) (j : Nat) : Option Span :=
  ops[j]?.bind Operator.span?

/-- Whether the operators at two places have a wire in common, be it one that they only pass over.
-/
def MeetAt (ops : List Operator) (i j : Nat) : Prop :=
  ∃ s s', spanAt? ops i = some s ∧ spanAt? ops j = some s' ∧ s.meets s'

theorem length_slotsOf (ops : List Operator) : (slotsOf ops).length = ops.length := by
  rw [slotsOf, Slot.length_pack, List.length_map]

section Slots

variable {ops : List Operator} (hspans : ∀ op ∈ ops, ∃ span, op.span? = some span)

include hspans

theorem spanAt?_eq (j : Nat) : spanAt? ops j = (slotsOf ops)[j]?.map Slot.span := by
  have hitems := congrArg (fun items ↦ items[j]?.map Prod.fst)
    (Slot.map_pack (ops.map Operator.item))
  simp only [List.getElem?_map, Option.map_map] at hitems
  rw [spanAt?, slotsOf]
  show _ = Option.map (Prod.fst ∘ fun s : Slot ↦ (s.span, s.width)) _
  rw [hitems]
  cases hop : ops[j]? with
  | none => rfl
  | some op =>
    obtain ⟨span, hspan⟩ := hspans op (List.mem_of_getElem? hop)
    simp [Operator.item, hspan]

theorem meetAt_iff {i j : Nat} : MeetAt ops i j ↔
    ∃ s t, (slotsOf ops)[i]? = some s ∧ (slotsOf ops)[j]? = some t ∧ s.span.meets t.span := by
  simp only [MeetAt, spanAt?_eq hspans, Option.map_eq_some_iff]
  constructor
  · rintro ⟨-, -, ⟨s, hs, rfl⟩, ⟨t, ht, rfl⟩, hmeets⟩
    exact ⟨s, t, hs, ht, hmeets⟩
  · rintro ⟨s, t, hs, ht, hmeets⟩
    exact ⟨_, _, ⟨s, hs, rfl⟩, ⟨t, ht, rfl⟩, hmeets⟩

end Slots

/-! ## Layers -/

/-- The place of the layer that holds a member. -/
def levelIn (layers : List Layer) (member : Nat) : Nat :=
  layers.findIdx fun l ↦ decide ((member : Int) ∈ l.members)

/-- Whether layers hold some operators by the rule, and what follows from it. -/
structure IsLeastSchedule (ops : List Operator) (layers : List Layer) : Prop where
  /-- Layers are numbered from left to right. -/
  index_eq : ∀ (k : Nat) (l : Layer), layers[k]? = some l → l.index = k
  /-- Every operator is in a layer. -/
  levelIn_lt : ∀ j < ops.length, levelIn layers j < layers.length
  /-- A layer holds the operators of its level, and nothing else. -/
  mem_members_iff : ∀ k l, layers[k]? = some l → ∀ m : Int,
    m ∈ l.members ↔ ∃ j < ops.length, m = (j : Int) ∧ levelIn layers j = k
  /-- An operator that meets no earlier one is in the first layer. -/
  levelIn_eq_zero : ∀ j < ops.length, (∀ i < j, ¬MeetAt ops i j) → levelIn layers j = 0
  /-- Any other operator is in the layer after the last one that holds an operator it meets. -/
  levelIn_eq_succ : ∀ j < ops.length, (∃ i < j, MeetAt ops i j) →
    ∃ top < j, MeetAt ops top j ∧ levelIn layers j = levelIn layers top + 1 ∧
      ∀ i < j, MeetAt ops i j → levelIn layers i ≤ levelIn layers top
  /-- Whoever keeps the order of operators that meet puts none of them further to the left. -/
  levelIn_le : ∀ other : Nat → Nat,
    (∀ i j, i < j → j < ops.length → MeetAt ops i j → other i < other j) →
      ∀ j < ops.length, levelIn layers j ≤ other j
  /-- Some operators, each of which meets the next one, are as many as the layers. -/
  exists_chain : ∃ chain, IsMeetingChain ops.length (MeetAt ops) chain ∧
    chain.length = layers.length
  /-- There are no more than that. -/
  length_chain_le : ∀ chain, IsMeetingChain ops.length (MeetAt ops) chain →
    chain.length ≤ layers.length

namespace Slot

theorem length_layers (slots : List Slot) : (layers slots).length = height slots := by
  rw [layers, List.length_map, List.length_range]

theorem getElem?_layers {slots : List Slot} {k : Nat} {l : Layer} :
    (layers slots)[k]? = some l ↔ k < height slots ∧ layer slots k = l := by
  rw [layers, List.getElem?_map, Option.map_eq_some_iff]
  constructor
  · rintro ⟨m, hm, rfl⟩
    obtain ⟨hlt, heq⟩ := List.getElem?_eq_some_iff.mp hm
    rw [List.getElem_range] at heq
    rw [List.length_range] at hlt
    exact ⟨hlt, by rw [heq]⟩
  · rintro ⟨hk, rfl⟩
    exact ⟨k, List.getElem?_range hk, rfl⟩

theorem mem_members_layer_iff {slots : List Slot} {k : Nat} {m : Int} :
    m ∈ (layer slots k).members ↔
      ∃ (j : Nat) (s : Slot), m = (j : Int) ∧ slots[j]? = some s ∧ s.level = k := by
  rw [layer, List.mem_map]
  constructor
  · rintro ⟨j, hj, rfl⟩
    obtain ⟨s, hs, hk⟩ := mem_members_iff.mp hj
    exact ⟨j, s, rfl, hs, hk⟩
  · rintro ⟨j, s, rfl, hs, hk⟩
    exact ⟨j, mem_members_iff.mpr ⟨s, hs, hk⟩, rfl⟩

theorem levelIn_layers {slots : List Slot} {j : Nat} {s : Slot} (hs : slots[j]? = some s) :
    levelIn (layers slots) j = s.level := by
  have hholds : ∀ k, (j : Int) ∈ (layer slots k).members ↔ s.level = k := by
    intro k
    rw [mem_members_layer_iff]
    constructor
    · rintro ⟨j', s', hj, hs', hk⟩
      obtain rfl := Int.ofNat.inj hj
      rw [hs, Option.some.injEq] at hs'
      rw [hs', hk]
    · exact fun hk ↦ ⟨j, s, rfl, hs, hk⟩
  have hlt : s.level < (layers slots).length := by
    rw [length_layers]
    exact level_lt_height (List.mem_of_getElem? hs)
  rw [levelIn, List.findIdx_eq hlt]
  simp only [layers, List.getElem_map, List.getElem_range, hholds, decide_eq_true_eq,
    decide_eq_false_iff_not, true_and]
  exact fun k hk ↦ Nat.ne_of_gt hk

end Slot

theorem levelIn_lt_height {ops : List Operator} {j : Nat} (hj : j < ops.length) :
    levelIn (Slot.layers (slotsOf ops)) j < Slot.height (slotsOf ops) := by
  have hs : (slotsOf ops)[j]? = some _ := List.getElem?_eq_getElem (by rwa [length_slotsOf])
  rw [Slot.levelIn_layers hs]
  exact Slot.level_lt_height (List.mem_of_getElem? hs)

section Leveling

variable {ops : List Operator} (hspans : ∀ op ∈ ops, ∃ span, op.span? = some span)

include hspans

/-- **The layers of some operators keep the rule.** -/
theorem isLeveling_layers :
    IsLeveling ops.length (MeetAt ops) (levelIn (Slot.layers (slotsOf ops))) where
  level_lt {i j} hij hj hmeet := by
    obtain ⟨s, t, hs, ht, hmeets⟩ := (meetAt_iff hspans).mp hmeet
    obtain ⟨hi, rfl⟩ := List.getElem?_eq_some_iff.mp hs
    obtain ⟨hj, rfl⟩ := List.getElem?_eq_some_iff.mp ht
    rw [Slot.levelIn_layers hs, Slot.levelIn_layers ht]
    exact List.pairwise_iff_getElem.mp (Slot.pairwise_pack List.Pairwise.nil _) i j hi hj hij hmeets
  exists_below {j} hj hpos := by
    obtain ⟨t, ht⟩ : ∃ t, (slotsOf ops)[j]? = some t :=
      ⟨_, List.getElem?_eq_getElem (by rwa [length_slotsOf])⟩
    rw [Slot.levelIn_layers ht, Slot.level_eq_levelAfter ht] at hpos
    obtain ⟨s, hs, hmeets, hlevel⟩ := Slot.exists_of_levelAfter_pos hpos
    obtain ⟨i, hi⟩ := List.getElem?_of_mem hs
    obtain ⟨hij, hi⟩ : i < j ∧ (slotsOf ops)[i]? = some s := by
      rw [List.getElem?_take] at hi
      split at hi
      · exact ⟨‹_›, hi⟩
      · contradiction
    refine ⟨i, hij, (meetAt_iff hspans).mpr ⟨s, t, hi, ht, hmeets⟩, ?_⟩
    rw [Slot.levelIn_layers ht, Slot.levelIn_layers hi, Slot.level_eq_levelAfter ht]
    exact hlevel

theorem exists_chain_layers :
    ∃ chain, IsMeetingChain ops.length (MeetAt ops) chain ∧
      chain.length = Slot.height (slotsOf ops) := by
  rcases Nat.eq_zero_or_pos (Slot.height (slotsOf ops)) with hzero | hpos
  · exact ⟨[], ⟨fun j hj ↦ absurd hj List.not_mem_nil, List.isChain_nil⟩, hzero.symm⟩
  · obtain ⟨j, s, hj, hlevel⟩ : ∃ (j : Nat) (s : Slot), (slotsOf ops)[j]? = some s ∧
        s.level = Slot.height (slotsOf ops) - 1 :=
      Slot.exists_getElem?_pack (Nat.sub_one_lt_of_lt hpos)
    obtain ⟨chain, hchain, hlength⟩ := (isLeveling_layers hspans).exists_chain_to
      (length_slotsOf ops ▸ (List.getElem?_eq_some_iff.mp hj).1)
    refine ⟨chain ++ [j], hchain, ?_⟩
    rw [List.length_append, List.length_singleton, hlength, Slot.levelIn_layers hj, hlevel]
    omega

theorem length_chain_le_height {chain : List Nat}
    (hchain : IsMeetingChain ops.length (MeetAt ops) chain) :
    chain.length ≤ Slot.height (slotsOf ops) := by
  cases chain with
  | nil => exact Nat.zero_le _
  | cons i chain =>
    obtain ⟨j, hj, hle⟩ := (isLeveling_layers hspans).exists_level_of_chain hchain
    have := levelIn_lt_height hj
    rw [List.length_cons]
    omega

/-- **The layers of some operators are their least schedule.** -/
theorem isLeastSchedule_layers : IsLeastSchedule ops (Slot.layers (slotsOf ops)) where
  index_eq k l hl := by
    rw [← (Slot.getElem?_layers.mp hl).2]
    rfl
  levelIn_lt j hj := by
    rw [Slot.length_layers]
    exact levelIn_lt_height hj
  mem_members_iff k l hl m := by
    rw [← (Slot.getElem?_layers.mp hl).2, Slot.mem_members_layer_iff]
    constructor
    · rintro ⟨j, s, rfl, hs, hk⟩
      refine ⟨j, ?_, rfl, (Slot.levelIn_layers hs).trans hk⟩
      exact length_slotsOf ops ▸ (List.getElem?_eq_some_iff.mp hs).1
    · rintro ⟨j, hj, rfl, hk⟩
      have hs : (slotsOf ops)[j]? = some _ := List.getElem?_eq_getElem (by rwa [length_slotsOf])
      exact ⟨j, _, rfl, hs, (Slot.levelIn_layers hs).symm.trans hk⟩
  levelIn_eq_zero j hj := (isLeveling_layers hspans).level_eq_zero hj
  levelIn_eq_succ j hj hmeets := by
    obtain ⟨i, hij, hmeet⟩ := hmeets
    exact (isLeveling_layers hspans).exists_highest hij hj hmeet
  levelIn_le other hother j hj := (isLeveling_layers hspans).level_le hother hj
  exists_chain := by
    rw [Slot.length_layers]
    exact exists_chain_layers hspans
  length_chain_le chain hchain := by
    rw [Slot.length_layers]
    exact length_chain_le_height hspans hchain

end Leveling

/-! ## Packing -/

theorem Operator.exists_ends {op : Operator} (hne : op.wires ≠ []) :
    ∃ low ∈ op.wires, ∃ high ∈ op.wires, low ≤ high ∧ op.span? = some ⟨low, high⟩ := by
  obtain ⟨low, hlow⟩ := Option.ne_none_iff_exists'.mp (mt List.min?_eq_none_iff.mp hne)
  obtain ⟨high, hhigh⟩ := Option.ne_none_iff_exists'.mp (mt List.max?_eq_none_iff.mp hne)
  obtain ⟨hlow', hle⟩ := List.min?_eq_some_iff.mp hlow
  obtain ⟨hhigh', -⟩ := List.max?_eq_some_iff.mp hhigh
  refine ⟨low, hlow', high, hhigh', hle high hhigh', ?_⟩
  rw [span?, hlow, hhigh]
  rfl

theorem Operator.exists_span {op : Operator} {count : Int} (hne : op.wires ≠ [])
    (hwires : ∀ w ∈ op.wires, 0 ≤ w ∧ w < count) :
    ∃ span, op.span? = some span ∧ span.Within count.toNat := by
  obtain ⟨low, hlow, high, hhigh, hle, hspan⟩ := exists_ends hne
  have hbound := hwires low hlow
  have hbound' := hwires high hhigh
  refine ⟨⟨low, high⟩, hspan, hbound.1, hle, ?_⟩
  show high < count.toNat
  omega

/-- **Packing makes the least schedule** of any operators on wires that exist. With a number of
wires that is still to be checked, packing gives the same wherever there is room for its table. -/
theorem exists_isLeastSchedule {ops : List Operator} {count : Int}
    (h : ∀ op ∈ ops, op.wires ≠ [] ∧ ∀ w ∈ op.wires, 0 ≤ w ∧ w < count) :
    ∃ layers, packLayers ops count.toNat = .ok layers ∧
      (Room.check Room.maxEntries count = .ok () → packOn ops count = .ok layers) ∧
      IsLeastSchedule ops layers := by
  have hspans : ∀ op ∈ ops, ∃ span, op.span? = some span ∧ span.Within count.toNat :=
    fun op hop ↦ Operator.exists_span (h op hop).1 (h op hop).2
  have hpack := packLayers_eq hspans
  refine ⟨_, hpack, fun hroom ↦ ?_, ?_⟩
  · rw [packOn, hroom]
    exact hpack
  · exact isLeastSchedule_layers fun op hop ↦ (hspans op hop).imp fun _ h ↦ h.1

/-- A swap keeps a box on the wire between its ends from its layer. -/
theorem exists_isLeastSchedule_swap_over_box :
    ∃ layers, packLayers [⟨.swap, [0, 2], 2, 0, none, []⟩,
        ⟨.controlledBox " h ", [1], 1, 0, none, []⟩] 3 = .ok layers ∧
      IsLeastSchedule [⟨.swap, [0, 2], 2, 0, none, []⟩,
        ⟨.controlledBox " h ", [1], 1, 0, none, []⟩] layers := by
  have hwires : ∀ op ∈ ([⟨.swap, [0, 2], 2, 0, none, []⟩,
      ⟨.controlledBox " h ", [1], 1, 0, none, []⟩] : List Operator),
      op.wires ≠ [] ∧ ∀ w ∈ op.wires, 0 ≤ w ∧ w < 3 := by decide
  obtain ⟨layers, hlayers, -, hleast⟩ := exists_isLeastSchedule hwires
  exact ⟨layers, hlayers, hleast⟩

end WireDiagram
