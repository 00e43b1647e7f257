import Mathlib.Data.Int.Order.Basic
import Mathlib.Data.Nat.Basic
import Mathlib.Order.Basic
import WireDiagram.Layer

/-!
# Levels

Packing keeps a table of free layers, wire by wire, and a list of layers that it extends. Neither is
how one thinks of the result: an operator goes into the first layer after all earlier operators
whose spans meet its own. Here the result is described that way. A `Slot` is an operator of which
only the span, the width and the layer are left, `Slot.levelAfter` is the rule, and `Slot.pack`
follows it along a list.

The main statement, `Packing.Tracks.addAll`, says that packing computes just this: its table holds
`Slot.levelAfter` of every single wire, and its layers are the groups of slots of equal level.

## Why levels and not the table

A level depends on the earlier slots as a set, not on their order, and so do the widths of the
layers. Two neighbours whose spans do not meet therefore get the same slots in either order
(`Slot.pack_swap`), and what follows them cannot tell the difference (`Slot.pack_perm`).
-/

namespace WireDiagram

/-! ## Spans -/

/-- Whether a span is made of wires that a diagram of `count` wires has, at least one of them. -/
structure Span.Within (count : Nat) (s : Span) : Prop where
  /-- The first wire is not negative. -/
  low_nonneg : 0 ≤ s.low
  /-- There is a wire in the span. -/
  low_le_high : s.low ≤ s.high
  /-- The last wire exists. -/
  high_lt : s.high < count

/-- The span of a single wire. -/
def Span.ofWire (wire : Int) : Span := ⟨wire, wire⟩

theorem Span.meets_ofWire_iff {s : Span} {wire : Int} :
    s.meets (.ofWire wire) ↔ s.low ≤ wire ∧ wire ≤ s.high :=
  Span.meets_iff

/-- Two spans meet exactly when they share a wire. -/
theorem Span.meets_iff_exists_wire {s t : Span} (hs : s.low ≤ s.high) (ht : t.low ≤ t.high) :
    s.meets t ↔ ∃ wire, (t.low ≤ wire ∧ wire ≤ t.high) ∧ s.meets (.ofWire wire) := by
  rw [Span.meets_iff]
  constructor
  · intro h
    -- The later one of the two first wires is in both spans.
    exact ⟨max s.low t.low, by omega, Span.meets_ofWire_iff.mpr (by omega)⟩
  · rintro ⟨wire, hwire, hmeets⟩
    have hmeets' := Span.meets_ofWire_iff.mp hmeets
    omega

theorem Span.exists_indices {count : Nat} {s : Span} (h : s.Within count) :
    ∃ ws, s.indices? count = some ws ∧
      ∀ w : Nat, w ∈ ws ↔ s.low ≤ (w : Int) ∧ (w : Int) ≤ s.high := by
  have hlow := h.low_nonneg
  have hhigh := h.high_lt
  have hle := h.low_le_high
  refine ⟨_, if_pos ⟨by omega, hhigh⟩, fun w ↦ ?_⟩
  rw [List.mem_filterMap]
  constructor
  · rintro ⟨i, hi, hw⟩
    rw [mem_intRange_iff] at hi
    obtain ⟨k, rfl⟩ := Int.eq_ofNat_of_zero_le (by omega : 0 ≤ i)
    rw [Position.resolve_natCast (by omega), Option.some.injEq] at hw
    omega
  · intro hw
    exact ⟨w, mem_intRange_iff.mpr (by omega), Position.resolve_natCast (by omega)⟩

/-! ## Slots -/

/-- An operator that has found its layer. -/
structure Slot where
  /-- The wires that it keeps from others. -/
  span : Span
  /-- The number of columns that it takes. -/
  width : Int
  /-- The place of its layer. -/
  level : Nat
  deriving DecidableEq, Repr

namespace Slot

/-- The first layer after all slots whose spans meet a given one. -/
def levelAfter (slots : List Slot) (span : Span) : Nat :=
  slots.foldr (fun s k ↦ if s.span.meets span then max (s.level + 1) k else k) 0

/-- The number of layers that some slots take. -/
def height (slots : List Slot) : Nat :=
  slots.foldr (fun s k ↦ max (s.level + 1) k) 0

/-- The width of the widest slot in a layer. -/
def layerWidth (slots : List Slot) (level : Nat) : Int :=
  slots.foldr (fun s w ↦ if s.level = level then max s.width w else w) 0

/-- The places of the slots in a layer. -/
def members (slots : List Slot) (level : Nat) : List Nat :=
  (List.range slots.length).filter fun j ↦ decide (slots[j]?.map Slot.level = some level)

/-- A layer of slots. -/
def layer (slots : List Slot) (level : Nat) : Layer :=
  ⟨level, (members slots level).map Int.ofNat, layerWidth slots level⟩

/-- The layers of slots, from left to right. -/
def layers (slots : List Slot) : List Layer :=
  (List.range (height slots)).map (layer slots)

/-- The slot that an operator gets after some others. -/
def next (slots : List Slot) (span : Span) (width : Int) : Slot :=
  ⟨span, width, levelAfter slots span⟩

/-- The slots of some operators, each after the ones before it. -/
def pack (slots : List Slot) : List (Span × Int) → List Slot
  | [] => slots
  | item :: items => pack (slots ++ [next slots item.1 item.2]) items

/-! ### What the folds compute

Each of the three folds is a least upper bound, and is used only through the statement that says so.
-/

theorem levelAfter_le_iff {slots : List Slot} {span : Span} {k : Nat} :
    levelAfter slots span ≤ k ↔ ∀ s ∈ slots, s.span.meets span → s.level < k := by
  induction slots with
  | nil => exact ⟨fun _ s hs ↦ absurd hs List.not_mem_nil, fun _ ↦ Nat.zero_le k⟩
  | cons s slots ih =>
    rw [levelAfter, List.foldr_cons, ← levelAfter, List.forall_mem_cons, ← ih]
    by_cases hs : s.span.meets span
    · rw [if_pos hs, Nat.max_le, Nat.succ_le_iff]
      constructor
      · rintro ⟨hlevel, hrest⟩
        exact ⟨fun _ ↦ hlevel, hrest⟩
      · rintro ⟨hlevel, hrest⟩
        exact ⟨hlevel hs, hrest⟩
    · rw [if_neg hs]
      constructor
      · intro hrest
        exact ⟨fun hmeets ↦ absurd hmeets hs, hrest⟩
      · rintro ⟨-, hrest⟩
        exact hrest

theorem height_le_iff {slots : List Slot} {k : Nat} :
    height slots ≤ k ↔ ∀ s ∈ slots, s.level < k := by
  induction slots with
  | nil => exact ⟨fun _ s hs ↦ absurd hs List.not_mem_nil, fun _ ↦ Nat.zero_le k⟩
  | cons s slots ih =>
    rw [height, List.foldr_cons, ← height, List.forall_mem_cons, ← ih, Nat.max_le, Nat.succ_le_iff]

theorem layerWidth_le_iff {slots : List Slot} {k : Nat} {w : Int} :
    layerWidth slots k ≤ w ↔ 0 ≤ w ∧ ∀ s ∈ slots, s.level = k → s.width ≤ w := by
  induction slots with
  | nil => exact ⟨fun h ↦ ⟨h, fun s hs ↦ absurd hs List.not_mem_nil⟩, fun h ↦ h.1⟩
  | cons s slots ih =>
    rw [layerWidth, List.foldr_cons, ← layerWidth, List.forall_mem_cons]
    by_cases hs : s.level = k
    · rw [if_pos hs, Int.max_le, ih]
      constructor
      · rintro ⟨hwidth, hnonneg, hrest⟩
        exact ⟨hnonneg, fun _ ↦ hwidth, hrest⟩
      · rintro ⟨hnonneg, hwidth, hrest⟩
        exact ⟨hwidth hs, hnonneg, hrest⟩
    · rw [if_neg hs, ih]
      constructor
      · rintro ⟨hnonneg, hrest⟩
        exact ⟨hnonneg, fun hlevel ↦ absurd hlevel hs, hrest⟩
      · rintro ⟨hnonneg, -, hrest⟩
        exact ⟨hnonneg, hrest⟩

theorem level_lt_levelAfter {slots : List Slot} {span : Span} {s : Slot} (hs : s ∈ slots)
    (h : s.span.meets span) : s.level < levelAfter slots span :=
  levelAfter_le_iff.mp (Nat.le_refl _) s hs h

theorem level_lt_height {slots : List Slot} {s : Slot} (hs : s ∈ slots) :
    s.level < height slots :=
  height_le_iff.mp (Nat.le_refl _) s hs

theorem layerWidth_nonneg (slots : List Slot) (k : Nat) : 0 ≤ layerWidth slots k :=
  (layerWidth_le_iff.mp (Int.le_refl _)).1

theorem width_le_layerWidth {slots : List Slot} {s : Slot} (hs : s ∈ slots) :
    s.width ≤ layerWidth slots s.level :=
  (layerWidth_le_iff.mp (Int.le_refl _)).2 s hs rfl

theorem levelAfter_le_height (slots : List Slot) (span : Span) :
    levelAfter slots span ≤ height slots :=
  levelAfter_le_iff.mpr fun _ hs _ ↦ level_lt_height hs

theorem mem_members_iff {slots : List Slot} {k j : Nat} :
    j ∈ members slots k ↔ ∃ s, slots[j]? = some s ∧ s.level = k := by
  rw [members, List.mem_filter, List.mem_range, decide_eq_true_iff, Option.map_eq_some_iff]
  constructor
  · exact fun h ↦ h.2
  · rintro ⟨s, hs, hk⟩
    exact ⟨(List.getElem?_eq_some_iff.mp hs).1, s, hs, hk⟩

theorem nodup_members (slots : List Slot) (k : Nat) : (members slots k).Nodup :=
  List.nodup_range.filter _

/-! ### One more slot -/

theorem levelAfter_append (slots : List Slot) (x : Slot) (span : Span) :
    levelAfter (slots ++ [x]) span =
      if x.span.meets span then max (x.level + 1) (levelAfter slots span)
      else levelAfter slots span := by
  refine eq_of_forall_ge_iff fun k ↦ ?_
  rw [levelAfter_le_iff, List.forall_mem_append, ← levelAfter_le_iff, List.forall_mem_singleton]
  by_cases hx : x.span.meets span
  · rw [if_pos hx, Nat.max_le, Nat.succ_le_iff, and_comm]
    exact and_congr_left fun _ ↦ forall_prop_of_true hx
  · rw [if_neg hx]
    exact and_iff_left fun h ↦ absurd h hx

theorem height_append (slots : List Slot) (x : Slot) :
    height (slots ++ [x]) = max (height slots) (x.level + 1) := by
  refine eq_of_forall_ge_iff fun k ↦ ?_
  rw [height_le_iff, List.forall_mem_append, ← height_le_iff, List.forall_mem_singleton, Nat.max_le,
    Nat.succ_le_iff]

theorem layerWidth_append (slots : List Slot) (x : Slot) (k : Nat) :
    layerWidth (slots ++ [x]) k =
      if x.level = k then max (layerWidth slots k) x.width else layerWidth slots k := by
  refine eq_of_forall_ge_iff fun w ↦ ?_
  rw [layerWidth_le_iff, List.forall_mem_append, ← and_assoc, ← layerWidth_le_iff,
    List.forall_mem_singleton]
  by_cases hx : x.level = k
  · rw [if_pos hx, Int.max_le]
    exact and_congr_right fun _ ↦ forall_prop_of_true hx
  · rw [if_neg hx]
    exact and_iff_left fun h ↦ absurd h hx

theorem members_append (slots : List Slot) (x : Slot) (k : Nat) :
    members (slots ++ [x]) k =
      if x.level = k then members slots k ++ [slots.length] else members slots k := by
  have hold : ∀ j ∈ List.range slots.length, (slots ++ [x])[j]? = slots[j]? := fun j hj ↦
    List.getElem?_append_left (List.mem_range.mp hj)
  have hnew : (slots ++ [x])[slots.length]? = some x := by simp
  rw [members, List.length_append, List.length_singleton, List.range_succ, List.filter_append,
    List.filter_congr (fun j hj ↦ by rw [hold j hj]), ← members, List.filter_cons, hnew,
    List.filter_nil]
  by_cases hx : x.level = k
  · simp [hx]
  · simp [hx]

/-- The layer after the last one is still empty. -/
theorem layer_height (slots : List Slot) :
    layer slots (height slots) = Layer.empty (height slots) := by
  have hmembers : members slots (height slots) = [] := by
    refine List.eq_nil_iff_forall_not_mem.mpr fun j hj ↦ ?_
    obtain ⟨s, hs, hk⟩ := mem_members_iff.mp hj
    have := level_lt_height (List.mem_of_getElem? hs)
    omega
  have hwidth : layerWidth slots (height slots) = 0 := by
    refine Int.le_antisymm (layerWidth_le_iff.mpr ⟨Int.le_refl 0, fun s hs hk ↦ ?_⟩)
      (layerWidth_nonneg slots _)
    have := level_lt_height hs
    omega
  rw [layer, hmembers, hwidth]
  rfl

theorem layer_append (slots : List Slot) (x : Slot) (k : Nat) :
    layer (slots ++ [x]) k =
      if x.level = k then (layer slots k).add slots.length x.width else layer slots k := by
  rw [layer, members_append, layerWidth_append]
  split
  · simp [layer, Layer.add]
  · rfl

/-- **One more member.** A slot with a level that does not exceed the number of layers is added to
the layers the way packing does it. -/
theorem layers_append (slots : List Slot) (x : Slot) (h : x.level ≤ height slots) :
    layers (slots ++ [x]) = Packing.addTo (layers slots) x.level slots.length x.width := by
  have hlength : (layers slots).length = height slots := by simp [layers]
  rw [Packing.addTo, hlength, layers, height_append]
  by_cases hx : x.level = height slots
  -- The slot opens a layer, and the layers before it stay as they are.
  · have hmax : max (height slots) (x.level + 1) = height slots + 1 := by omega
    rw [if_pos hx, hmax, List.range_succ, List.map_append, List.map_singleton, layer_append,
      if_pos hx, layer_height, layers]
    congr 1
    · refine List.map_congr_left fun k hk ↦ ?_
      rw [layer_append, if_neg (by have := List.mem_range.mp hk; omega)]
    · rw [hx]
  -- The slot joins a layer that is there.
  · have hmax : max (height slots) (x.level + 1) = height slots := by omega
    rw [if_neg hx, hmax]
    refine List.ext_getElem (by simp [layers]) fun k hk hk' ↦ ?_
    rw [List.getElem_modify, List.getElem_map, List.getElem_range, layer_append]
    simp [layers]

/-! ### Packing a list -/

theorem pack_append (slots : List Slot) (xs ys : List (Span × Int)) :
    pack slots (xs ++ ys) = pack (pack slots xs) ys := by
  induction xs generalizing slots with
  | nil => rfl
  | cons x xs ih => exact ih _

/-- Packing keeps the slots that are there and gives every operator one of its own. -/
theorem exists_pack (slots : List Slot) (items : List (Span × Int)) :
    ∃ more, pack slots items = slots ++ more ∧ more.map (fun s ↦ (s.span, s.width)) = items := by
  induction items generalizing slots with
  | nil => exact ⟨[], by simp [pack]⟩
  | cons item items ih =>
    obtain ⟨more, hmore, hitems⟩ := ih (slots ++ [next slots item.1 item.2])
    exact ⟨next slots item.1 item.2 :: more, by simp [pack, hmore], by simp [hitems, next]⟩

theorem map_pack (items : List (Span × Int)) :
    (pack [] items).map (fun s ↦ (s.span, s.width)) = items := by
  obtain ⟨more, hmore, hitems⟩ := exists_pack [] items
  rw [hmore, List.nil_append, hitems]

theorem length_pack (items : List (Span × Int)) : (pack [] items).length = items.length := by
  rw [← List.length_map (f := fun s : Slot ↦ (s.span, s.width)), map_pack]

/-- **The order is kept.** Of two slots that meet, the later one has the higher level. -/
theorem pairwise_pack {slots : List Slot}
    (h : slots.Pairwise fun s t ↦ s.span.meets t.span → s.level < t.level)
    (items : List (Span × Int)) :
    (pack slots items).Pairwise fun s t ↦ s.span.meets t.span → s.level < t.level := by
  induction items generalizing slots with
  | nil => exact h
  | cons item items ih =>
    refine ih (List.pairwise_append.mpr ⟨h, List.pairwise_singleton _ _, fun s hs t ht ↦ ?_⟩)
    rw [List.mem_singleton.mp ht]
    exact fun hmeets ↦ level_lt_levelAfter hs hmeets

/-- **No layer is empty.** -/
theorem exists_level_pack {slots : List Slot}
    (h : ∀ k, k < height slots → ∃ s ∈ slots, s.level = k) (items : List (Span × Int)) {k : Nat}
    (hk : k < height (pack slots items)) : ∃ s ∈ pack slots items, s.level = k := by
  induction items generalizing slots with
  | nil => exact h k hk
  | cons item items ih =>
    refine ih (fun m hm ↦ ?_) hk
    rw [height_append] at hm
    have hlevel : (next slots item.1 item.2).level ≤ height slots :=
      levelAfter_le_height slots item.1
    by_cases hlt : m < height slots
    · obtain ⟨s, hs, hm'⟩ := h m hlt
      exact ⟨s, List.mem_append_left _ hs, hm'⟩
    · exact ⟨next slots item.1 item.2, by simp, by omega⟩

/-- Every layer of packed operators has a member. -/
theorem exists_getElem?_pack {items : List (Span × Int)} {k : Nat}
    (hk : k < height (pack [] items)) :
    ∃ (j : Nat) (s : Slot), (pack [] items)[j]? = some s ∧ s.level = k := by
  have hnone : ∀ k, k < height [] → ∃ s ∈ ([] : List Slot), s.level = k :=
    fun k hk ↦ absurd hk (Nat.not_lt_zero k)
  obtain ⟨s, hs, hlevel⟩ := exists_level_pack hnone items hk
  obtain ⟨j, hj⟩ := List.getElem?_of_mem hs
  exact ⟨j, s, hj, hlevel⟩

/-! ### Order does not matter -/

theorem levelAfter_perm {slots slots' : List Slot} (h : slots.Perm slots') (span : Span) :
    levelAfter slots span = levelAfter slots' span := by
  refine eq_of_forall_ge_iff fun k ↦ ?_
  simp only [levelAfter_le_iff, h.mem_iff]

theorem height_perm {slots slots' : List Slot} (h : slots.Perm slots') :
    height slots = height slots' := by
  refine eq_of_forall_ge_iff fun k ↦ ?_
  simp only [height_le_iff, h.mem_iff]

theorem layerWidth_perm {slots slots' : List Slot} (h : slots.Perm slots') (k : Nat) :
    layerWidth slots k = layerWidth slots' k := by
  refine eq_of_forall_ge_iff fun w ↦ ?_
  simp only [layerWidth_le_iff, h.mem_iff]

/-- What is packed later cannot tell the order of what is there. -/
theorem pack_perm {slots slots' : List Slot} (h : slots.Perm slots') (items : List (Span × Int)) :
    ∃ more, pack slots items = slots ++ more ∧ pack slots' items = slots' ++ more := by
  induction items generalizing slots slots' with
  | nil => exact ⟨[], by simp [pack], by simp [pack]⟩
  | cons item items ih =>
    have hnext : next slots' item.1 item.2 = next slots item.1 item.2 := by
      rw [next, next, levelAfter_perm h]
    obtain ⟨more, hmore, hmore'⟩ := ih (h.append_right [next slots item.1 item.2])
    refine ⟨next slots item.1 item.2 :: more, by simp [pack, hmore], ?_⟩
    rw [pack, hnext, hmore']
    simp

/-- **Neighbours that do not meet change places freely.** Each of them gets the same slot before the
other as after it, and all that follow get theirs. -/
theorem pack_swap (slots : List Slot) (a b : Span × Int) (items : List (Span × Int))
    (h : ¬a.1.meets b.1) :
    ∃ s t more, pack slots (a :: b :: items) = slots ++ s :: t :: more ∧
      pack slots (b :: a :: items) = slots ++ t :: s :: more := by
  have hb : next (slots ++ [next slots a.1 a.2]) b.1 b.2 = next slots b.1 b.2 := by
    have hspan : (next slots a.1 a.2).span = a.1 := rfl
    rw [next, levelAfter_append, hspan, if_neg h, ← next]
  have ha : next (slots ++ [next slots b.1 b.2]) a.1 a.2 = next slots a.1 a.2 := by
    have hspan : (next slots b.1 b.2).span = b.1 := rfl
    rw [next, levelAfter_append, hspan, if_neg (by rwa [Span.meets_comm]), ← next]
  have hswap : ([next slots a.1 a.2] ++ [next slots b.1 b.2]).Perm
      ([next slots b.1 b.2] ++ [next slots a.1 a.2]) := List.perm_append_comm
  obtain ⟨more, hmore, hmore'⟩ := pack_perm (hswap.append_left slots) items
  refine ⟨next slots a.1 a.2, next slots b.1 b.2, more, ?_, ?_⟩
  · rw [pack, pack, hb, List.append_assoc, hmore]
    simp
  · rw [pack, pack, ha, List.append_assoc, hmore']
    simp

end Slot

/-! ## Packing computes the slots -/

/-- What packing looks at in an operator, its span and its width. An operator without wires has no
span and cannot be packed; any wire stands in for it here. -/
def Operator.item (op : Operator) : Span × Int :=
  (op.span?.getD (.ofWire 0), op.width)

/-- Whether the state of packing is the one that some slots describe. -/
structure Packing.Tracks (p : Packing) (count : Nat) (slots : List Slot) : Prop where
  /-- There is an entry for every wire. -/
  length_free : p.free.length = count
  /-- A wire is free from the level that a span of this wire alone would get. -/
  free_eq : ∀ w : Nat, w < count → p.free[w]? = some (Slot.levelAfter slots (.ofWire w))
  /-- The layers are those of the slots. -/
  layers_eq : p.layers = Slot.layers slots
  /-- The slots are on wires of the diagram. -/
  within : ∀ s ∈ slots, s.span.Within count

namespace Packing

theorem tracks_start (count : Nat) : (start count).Tracks count [] where
  length_free := List.length_replicate
  free_eq w hw := by
    rw [start, List.getElem?_replicate, if_pos hw]
    rfl
  layers_eq := rfl
  within s hs := absurd hs List.not_mem_nil

/-- The earliest layer, as a least upper bound over the table. -/
theorem earliest_le_iff {p : Packing} {ws : List Nat} {k : Nat} :
    p.earliest ws ≤ k ↔ ∀ w ∈ ws, p.free[w]?.getD 0 ≤ k := by
  rw [earliest]
  cases hmax : (ws.map fun w ↦ p.free[w]?.getD 0).max? with
  | none =>
    have hnil : ws = [] := by simpa using hmax
    simp [hnil]
  | some m =>
    rw [Option.getD_some, List.max?_le_iff hmax]
    simp

/-- Setting entries of a table, one after the other. -/
theorem getElem?_foldl_set {ws : List Nat} {v : Nat} :
    ∀ {free : List Nat} {w : Nat}, w < free.length →
      (ws.foldl (fun free w ↦ free.set w v) free)[w]? = if w ∈ ws then some v else free[w]? := by
  induction ws with
  | nil => intro free w _; simp
  | cons a ws ih =>
    intro free w hw
    rw [List.foldl_cons, ih (by rwa [List.length_set]), List.getElem?_set]
    by_cases hmem : w ∈ ws
    · rw [if_pos hmem, if_pos (List.mem_cons_of_mem a hmem)]
    · rw [if_neg hmem]
      by_cases ha : a = w
      · rw [if_pos ha, if_pos (by omega), if_pos (by rw [ha]; exact List.mem_cons_self)]
      · rw [if_neg ha, if_neg (by simp [hmem, Ne.symm ha])]

theorem length_foldl_set {ws : List Nat} {v : Nat} {free : List Nat} :
    (ws.foldl (fun free w ↦ free.set w v) free).length = free.length := by
  induction ws generalizing free with
  | nil => rfl
  | cons a ws ih => rw [List.foldl_cons, ih, List.length_set]

namespace Tracks

variable {p : Packing} {count : Nat} {slots : List Slot}

/-- The table gives a span the level that the rule gives it. -/
theorem earliest_eq (h : p.Tracks count slots) {span : Span} (hspan : span.Within count)
    {ws : List Nat} (hws : ∀ w : Nat, w ∈ ws ↔ span.low ≤ (w : Int) ∧ (w : Int) ≤ span.high) :
    p.earliest ws = Slot.levelAfter slots span := by
  have hlow := hspan.low_nonneg
  have hhigh := hspan.high_lt
  have hfree : ∀ w : Nat, w ∈ ws → p.free[w]?.getD 0 = Slot.levelAfter slots (.ofWire w) := by
    intro w hw
    rw [hws] at hw
    rw [h.free_eq w (by omega), Option.getD_some]
  -- Both sides are least upper bounds, over the wires of the span and over the slots that meet it.
  refine eq_of_forall_ge_iff fun k ↦ ?_
  rw [earliest_le_iff, Slot.levelAfter_le_iff]
  constructor
  · intro hk s hs hmeets
    obtain ⟨wire, hwire, hmeets'⟩ :=
      (Span.meets_iff_exists_wire (h.within s hs).low_le_high hspan.low_le_high).mp hmeets
    obtain ⟨w, rfl⟩ := Int.eq_ofNat_of_zero_le (by omega : 0 ≤ wire)
    have hw : w ∈ ws := (hws w).mpr hwire
    have hle := hk w hw
    rw [hfree w hw, Slot.levelAfter_le_iff] at hle
    exact hle s hs hmeets'
  · intro hk w hw
    rw [hfree w hw, Slot.levelAfter_le_iff]
    intro s hs hmeets
    exact hk s hs ((Span.meets_iff_exists_wire (h.within s hs).low_le_high
      hspan.low_le_high).mpr ⟨w, (hws w).mp hw, hmeets⟩)

/-- **One step of packing** gives the operator the next slot. -/
theorem put (h : p.Tracks count slots) {span : Span} (hspan : span.Within count) (width : Int)
    {ws : List Nat} (hws : ∀ w : Nat, w ∈ ws ↔ span.low ≤ (w : Int) ∧ (w : Int) ≤ span.high) :
    (p.put slots.length width ws).Tracks count (slots ++ [Slot.next slots span width]) where
  length_free := by
    rw [Packing.put]
    exact length_foldl_set.trans h.length_free
  free_eq w hw := by
    have hlevel := h.earliest_eq hspan hws
    have hnext : (Slot.next slots span width).span = span := rfl
    have hmeets : span.meets (.ofWire w) ↔ w ∈ ws := by
      rw [hws, Span.meets_ofWire_iff]
    rw [Packing.put, getElem?_foldl_set (by rwa [h.length_free]), h.free_eq w hw,
      Slot.levelAfter_append, hnext, hlevel]
    by_cases hmem : w ∈ ws
    · -- A slot on this wire meets the span, so the entry cannot be larger already.
      have hle : Slot.levelAfter slots (.ofWire w) ≤ Slot.levelAfter slots span := by
        rw [← hlevel]
        have := earliest_le_iff.mp (Nat.le_refl (p.earliest ws)) w hmem
        rwa [h.free_eq w hw, Option.getD_some] at this
      rw [if_pos hmem, if_pos (hmeets.mpr hmem)]
      show _ = some (max (Slot.levelAfter slots span + 1) _)
      rw [Nat.max_eq_left (by omega)]
    · rw [if_neg hmem, if_neg fun hm ↦ hmem (hmeets.mp hm)]
  layers_eq := by
    have hlevel := h.earliest_eq hspan hws
    rw [Packing.put, Slot.layers_append _ _ (Slot.levelAfter_le_height slots span), hlevel,
      h.layers_eq]
    rfl
  within s hs := by
    rcases List.mem_append.mp hs with hs | hs
    · exact h.within s hs
    · rw [List.mem_singleton.mp hs]
      exact hspan

/-- **Packing follows the rule**, operator by operator, and cannot fail on spans that exist. -/
theorem addAll {ops : List Operator} :
    ∀ {p : Packing} {slots : List Slot}, p.Tracks count slots →
      (∀ op ∈ ops, ∃ span, op.span? = some span ∧ span.Within count) →
      ∃ p', p.addAll slots.length ops = .ok p' ∧
        p'.Tracks count (Slot.pack slots (ops.map Operator.item)) := by
  induction ops with
  | nil => intro p slots h _; exact ⟨p, rfl, h⟩
  | cons op ops ih =>
    intro p slots h hops
    obtain ⟨span, hspan, hwithin⟩ := hops op List.mem_cons_self
    obtain ⟨ws, hindices, hws⟩ := Span.exists_indices hwithin
    have hadd : p.add slots.length op = .ok (p.put slots.length op.width ws) := by
      rw [Packing.add, hspan]
      show (p.places span).map _ = _
      rw [places, h.length_free, hindices]
      rfl
    obtain ⟨p', hp', htracks⟩ := ih (h.put hwithin op.width hws)
      fun op' hop' ↦ hops op' (List.mem_cons_of_mem op hop')
    refine ⟨p', ?_, ?_⟩
    · rw [List.length_append, List.length_singleton] at hp'
      rw [Packing.addAll, hadd]
      exact hp'
    · rwa [List.map_cons, Slot.pack, Operator.item, hspan]

end Tracks

end Packing

/-- Packing gives the layers of the slots. -/
theorem packLayers_eq {ops : List Operator} {count : Nat}
    (h : ∀ op ∈ ops, ∃ span, op.span? = some span ∧ span.Within count) :
    packLayers ops count = .ok (Slot.layers (Slot.pack [] (ops.map Operator.item))) := by
  obtain ⟨p, hp, htracks⟩ := (Packing.tracks_start count).addAll h
  rw [packLayers]
  show ((Packing.start count).addAll ([] : List Slot).length ops).map _ = _
  rw [hp]
  show Except.ok p.layers = _
  rw [htracks.layers_eq]

end WireDiagram
