import WireDiagram.Proofs.Layout

/-!
# Moving operators to other wires

Two traces whose operators differ in their wires only, and meet alike, are laid out alike: the same
layers, and every operator in the same columns (`Trace.Moves.layers_eq`,
`Trace.Moves.exists_columns`).

## Why the wires do not matter

Packing asks of spans only which of them meet, so moved spans get the same levels
(`Slot.pack_mapSpan`). All that the layout computes from there depends on levels and widths.
-/

namespace WireDiagram

/-! ## Slots -/

namespace Slot

/-- A slot on other wires. -/
def mapSpan (f : Span → Span) (s : Slot) : Slot :=
  { s with span := f s.span }

section MapSpan

variable {f : Span → Span} (hf : ∀ s t, (f s).meets (f t) = s.meets t)

theorem height_mapSpan (f : Span → Span) (slots : List Slot) :
    height (slots.map (mapSpan f)) = height slots := by
  refine eq_of_forall_ge_iff fun k ↦ ?_
  simp only [height_le_iff, List.forall_mem_map]
  rfl

theorem layerWidth_mapSpan (f : Span → Span) (slots : List Slot) (k : Nat) :
    layerWidth (slots.map (mapSpan f)) k = layerWidth slots k := by
  refine eq_of_forall_ge_iff fun w ↦ ?_
  simp only [layerWidth_le_iff, List.forall_mem_map]
  rfl

theorem layers_mapSpan (f : Span → Span) (slots : List Slot) :
    layers (slots.map (mapSpan f)) = layers slots := by
  rw [layers, layers, height_mapSpan]
  refine List.map_congr_left fun k _ ↦ ?_
  have hmembers : members (slots.map (mapSpan f)) k = members slots k := by
    rw [members, members, List.length_map]
    refine List.filter_congr fun j _ ↦ ?_
    rw [List.getElem?_map, Option.map_map]
    rfl
  rw [layer, layer, hmembers, layerWidth_mapSpan]

theorem offset_mapSpan (f : Span → Span) (slots : List Slot) (k : Nat) :
    offset (slots.map (mapSpan f)) k = offset slots k := by
  rw [offset, offset, funext (layerWidth_mapSpan f slots)]

theorem column_mapSpan (f : Span → Span) (slots : List Slot) (s : Slot) :
    column (slots.map (mapSpan f)) (s.mapSpan f) = column slots s := by
  rw [column, column, offset_mapSpan, layerWidth_mapSpan]
  rfl

include hf

theorem levelAfter_mapSpan (slots : List Slot) (span : Span) :
    levelAfter (slots.map (mapSpan f)) (f span) = levelAfter slots span := by
  refine eq_of_forall_ge_iff fun k ↦ ?_
  simp only [levelAfter_le_iff, List.forall_mem_map, mapSpan, hf]

/-- **Packing sees of spans only which of them meet.** -/
theorem pack_mapSpan (slots : List Slot) (items : List (Span × Int)) :
    pack (slots.map (mapSpan f)) (items.map fun item ↦ (f item.1, item.2)) =
      (pack slots items).map (mapSpan f) := by
  induction items generalizing slots with
  | nil => rfl
  | cons item items ih =>
    have hnext : next (slots.map (mapSpan f)) (f item.1) item.2 =
        (next slots item.1 item.2).mapSpan f := by
      rw [next, levelAfter_mapSpan hf]
      rfl
    rw [List.map_cons, pack, pack, hnext, ← ih]
    simp

end MapSpan

end Slot

/-! ## Traces -/

namespace Trace

/-- The slots of a trace, each with its instruction. -/
def entries (t : Trace) : List (Slot × Instruction) :=
  t.slots.zip t.instructions

variable {t t' : Trace} {f : Span → Span} {g : Instruction → Instruction}

theorem mem_instructions_of_mem_entries {e : Slot × Instruction} (he : e ∈ t.entries) :
    e.2 ∈ t.instructions :=
  (List.of_mem_zip he).2

/-- Every operator is placed in the column of its slot. -/
theorem placed_eq_map (t : Trace) :
    t.placed = t.entries.map fun e ↦ e.2.operator.placedAt (Slot.column t.slots e.1) := by
  rw [placed, operators, List.zipWith_map_right, entries, List.map_zip_eq_zipWith]
  rfl

/-- Whether a trace is another one with its operators on other wires, where they meet as before. -/
structure Moves (t t' : Trace) (f : Span → Span) (g : Instruction → Instruction) : Prop where
  /-- Moved spans meet if the spans did. -/
  meets_eq : ∀ s u, (f s).meets (f u) = s.meets u
  /-- The instructions are moved one by one. -/
  instructions_eq : t'.instructions = t.instructions.map g
  /-- A moved instruction is on the moved span. -/
  span_eq : ∀ i ∈ t.instructions, (g i).span = f i.span
  /-- A moved instruction is equally wide. -/
  width_eq : ∀ i ∈ t.instructions, (g i).operator.width = i.operator.width

namespace Moves

variable (h : t.Moves t' f g)

include h

theorem slots_eq : t'.slots = t.slots.map (Slot.mapSpan f) := by
  have hitems : t'.operators.map Operator.item =
      (t.operators.map Operator.item).map fun item ↦ (f item.1, item.2) := by
    rw [operators, operators, h.instructions_eq, List.map_map, List.map_map, List.map_map,
      List.map_map]
    refine List.map_congr_left fun i hi ↦ ?_
    simp only [Function.comp, Operator.item, Instruction.span?_operator, Option.getD_some,
      h.span_eq i hi, h.width_eq i hi]
  rw [slots, slots, hitems]
  exact Slot.pack_mapSpan h.meets_eq [] _

theorem layers_eq : Slot.layers t'.slots = Slot.layers t.slots := by
  rw [h.slots_eq, Slot.layers_mapSpan]

/-- The diagrams are equally wide. -/
theorem columns_eq : t'.width = t.width := by
  rw [width, width, h.slots_eq, Slot.height_mapSpan, Slot.offset_mapSpan]

/-- A moved operator is placed in the column of the operator it comes from. -/
theorem placed_eq :
    t'.placed = t.entries.map fun e ↦ (g e.2).operator.placedAt (Slot.column t.slots e.1) := by
  rw [placed_eq_map, entries, h.slots_eq, h.instructions_eq, List.zip_map, List.map_map, entries]
  refine List.map_congr_left fun e _ ↦ ?_
  simp only [Function.comp, Prod.map_fst, Prod.map_snd, Slot.column_mapSpan]

/-- **Moved operators have the columns of the operators they come from.** -/
theorem exists_columns : ∃ columns : List (Int × Int × Int),
    t.placed.map Operator.columns = columns.map Except.ok ∧
      t'.placed.map Operator.columns = columns.map Except.ok := by
  let columnsOf (e : Slot × Instruction) := e.2.operator.columnsFrom (Slot.column t.slots e.1)
  refine ⟨t.entries.map columnsOf, ?_, ?_⟩
  · rw [placed_eq_map, List.map_map, List.map_map]
    rfl
  · rw [h.placed_eq, List.map_map, List.map_map]
    refine List.map_congr_left fun e he ↦ ?_
    simp only [Function.comp, columnsOf, Operator.columnsFrom, Instruction.columns_placedAt,
      h.width_eq e.2 (mem_instructions_of_mem_entries he)]

end Moves

end Trace

end WireDiagram
