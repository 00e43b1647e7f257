import Mathlib.Logic.Relation
import WireDiagram.Proofs.Capacity
import WireDiagram.Proofs.Seams

/-!
# Commutation

Neighbouring instructions whose spans have no wire in common may change places: the text of the
trace stays the same, whatever the budget (`Trace.draw_eq_of_exchanges`).

The slots of the two traces are the same up to order (`Slot.pack_swap`), and so all operators are
placed alike. What is left is the order of the strokes, and that matters in no cell: either one of
the two operators has nothing to do there, or both have and the cell is in a seam between them.
-/

namespace WireDiagram

/-! ## Exchanges -/

/-- Exchange the element at a position with the next one, if both are there. -/
def exchangeAt {α : Type} : Nat → List α → List α
  | 0, a :: b :: l => b :: a :: l
  | i + 1, a :: l => a :: exchangeAt i l
  | _, l => l

/-- An exchange as a change in the middle of a list. -/
theorem exists_exchangeAt {α : Type} {a b : α} {i : Nat} {l : List α} (ha : l[i]? = some a)
    (hb : l[i + 1]? = some b) :
    ∃ pre post, l = pre ++ a :: b :: post ∧ exchangeAt i l = pre ++ b :: a :: post := by
  fun_induction exchangeAt i l with
  | case1 x y l =>
    obtain rfl : x = a := Option.some.inj ha
    obtain rfl : y = b := Option.some.inj hb
    exact ⟨[], l, rfl, rfl⟩
  | case2 i x l ih =>
    obtain ⟨pre, post, rfl, hexchange⟩ := ih ha hb
    exact ⟨x :: pre, post, rfl, by rw [hexchange, List.cons_append]⟩
  | case3 i l hzero hsucc =>
    -- The list is too short for two neighbours at this position.
    have hlt := (List.getElem?_eq_some_iff.mp hb).1
    obtain ⟨x, l, rfl⟩ := List.exists_cons_of_length_pos (Nat.zero_lt_of_lt hlt)
    obtain _ | i := i
    · obtain ⟨y, l, rfl⟩ := List.exists_cons_of_length_pos (Nat.lt_of_succ_lt_succ hlt)
      exact absurd rfl (hzero x y l rfl)
    · exact absurd rfl (hsucc i x l rfl)

theorem mem_of_mem_exchangeAt {α : Type} {x : α} {i : Nat} {l : List α} (h : x ∈ exchangeAt i l) :
    x ∈ l := by
  fun_induction exchangeAt i l with
  | case1 a b l =>
    rw [List.mem_cons, List.mem_cons] at h ⊢
    exact or_left_comm.mp h
  | case2 i a l ih =>
    rcases List.mem_cons.mp h with rfl | h
    · exact List.mem_cons_self
    · exact List.mem_cons_of_mem a (ih h)
  | case3 => exact h

namespace Trace

/-- The trace in which the instruction at a position and the next one have changed places. -/
def exchange (t : Trace) (i : Nat) : Trace where
  wireCount := t.wireCount
  instructions := exchangeAt i t.instructions
  wires_lt inst h := t.wires_lt inst (mem_of_mem_exchangeAt h)

@[simp] theorem instructions_exchange (t : Trace) (i : Nat) :
    (t.exchange i).instructions = exchangeAt i t.instructions := rfl

/-- Whether one trace is another one in which two neighbours whose spans have no wire in common have
changed places. -/
def Exchanges (t t' : Trace) : Prop :=
  ∃ i a b, t.instructions[i]? = some a ∧ t.instructions[i + 1]? = some b ∧
    ¬a.span.meets b.span ∧ t' = t.exchange i

/-! ## Slots and operators -/

variable {t t' : Trace}

theorem Exchanges.wireCount_eq (h : t.Exchanges t') : t'.wireCount = t.wireCount := by
  obtain ⟨i, a, b, -, -, -, rfl⟩ := h
  rfl

/-- **An exchange shows in the order of slots and operators only.** Every operator keeps its slot.
-/
theorem Exchanges.exists_slots (h : t.Exchanges t') :
    ∃ S s u U pre a b post, S.length = pre.length ∧
      (t.slots = S ++ s :: u :: U ∧ t.operators = pre ++ a :: b :: post) ∧
        t'.slots = S ++ u :: s :: U ∧ t'.operators = pre ++ b :: a :: post := by
  obtain ⟨i, a, b, ha, hb, hspan, rfl⟩ := h
  obtain ⟨pre, post, hl, hexchange⟩ := exists_exchangeAt ha hb
  have hops : t.operators = pre.map Instruction.operator ++
      a.operator :: b.operator :: post.map Instruction.operator := by
    rw [operators, hl, List.map_append, List.map_cons, List.map_cons]
  have hops' : (t.exchange i).operators = pre.map Instruction.operator ++
      b.operator :: a.operator :: post.map Instruction.operator := by
    rw [operators, instructions_exchange, hexchange, List.map_append, List.map_cons, List.map_cons]
  have hitems : ¬a.operator.item.1.meets b.operator.item.1 := by
    rw [Operator.item, Operator.item, Instruction.span?_operator, Instruction.span?_operator]
    exact hspan
  -- What stands before the neighbours is packed alike in both traces.
  obtain ⟨s, u, U, hs, hs'⟩ := Slot.pack_swap
    (Slot.pack [] ((pre.map Instruction.operator).map Operator.item)) a.operator.item
    b.operator.item ((post.map Instruction.operator).map Operator.item) hitems
  refine ⟨Slot.pack [] ((pre.map Instruction.operator).map Operator.item), s, u, U, _, _, _, _,
    ?_, ⟨?_, hops⟩, ?_, hops'⟩
  · rw [Slot.length_pack, List.length_map]
  · rw [slots, hops, List.map_append, Slot.pack_append]
    exact hs
  · rw [slots, hops', List.map_append, Slot.pack_append]
    exact hs'

theorem Exchanges.slots_perm (h : t.Exchanges t') : t.slots.Perm t'.slots := by
  obtain ⟨S, s, u, U, -, -, -, -, -, ⟨hs, -⟩, hs', -⟩ := h.exists_slots
  rw [hs, hs']
  exact (List.Perm.swap u s U).append_left S

theorem Exchanges.exists_placed (h : t.Exchanges t') :
    ∃ P p q Q, t.placed = P ++ p :: q :: Q ∧ t'.placed = P ++ q :: p :: Q := by
  have hplace := Slot.place_perm h.slots_perm
  obtain ⟨S, s, u, U, pre, a, b, post, hlength, ⟨hs, hops⟩, hs', hops'⟩ := h.exists_slots
  refine ⟨List.zipWith (Slot.place t.slots) S pre, Slot.place t.slots s a,
    Slot.place t.slots u b, List.zipWith (Slot.place t.slots) U post, ?_, ?_⟩
  · calc
      t.placed = List.zipWith (Slot.place t.slots) (S ++ s :: u :: U) (pre ++ a :: b :: post) := by
        rw [placed, ← hops, ← hs]
      _ = _ := by
        rw [List.zipWith_append hlength]
        rfl
  · calc
      t'.placed = List.zipWith (Slot.place t.slots) (S ++ u :: s :: U) (pre ++ b :: a :: post) := by
        rw [placed, hplace, ← hops', ← hs']
      _ = _ := by
        rw [List.zipWith_append hlength]
        rfl

theorem Exchanges.width_eq (h : t.Exchanges t') : t'.width = t.width := by
  rw [width, width, ← Slot.height_perm h.slots_perm, ← Slot.offset_perm h.slots_perm]

end Trace

/-! ## Cells -/

section Cells

variable {count width : Nat} {P Q : List Operator} {p q : Operator}

/-- **Neighbouring operators may draw in either order.** -/
theorem inked_exchange (hsettled : ∀ op ∈ P ++ p :: q :: Q, ∃ a, op.IsSettled count width a)
    (hapart : (P ++ p :: q :: Q).Pairwise Operator.Apart) (row col : Int) :
    (Cell.fresh row).inked
        (strokesAt row col ((P ++ p :: q :: Q).flatMap fun op ↦ op.strokes count)) =
      (Cell.fresh row).inked
        (strokesAt row col ((P ++ q :: p :: Q).flatMap fun op ↦ op.strokes count)) := by
  obtain ⟨a, ha⟩ := hsettled p (by simp)
  obtain ⟨b, hb⟩ := hsettled q (by simp)
  obtain ⟨-, hpairs, hleft⟩ := List.pairwise_append.mp hapart
  have hpq : p.Apart q := (List.pairwise_cons.mp hpairs).1 q List.mem_cons_self
  simp only [List.flatMap_append, List.flatMap_cons, strokesAt_append, Cell.inked_append]
  congr 1
  by_cases hp : p.covers row col = true
  · by_cases hq : q.covers row col = true
    · -- No third operator can reach the seam, so the cell is still as it was.
      have hbefore : strokesAt row col (P.flatMap fun op ↦ op.strokes count) = [] := by
        rw [strokesAt_flatMap, List.flatMap_eq_nil_iff]
        intro op hop
        obtain ⟨c, hc⟩ := hsettled op (List.mem_append_left _ hop)
        refine hc.strokesAt_eq_nil fun hcovers ↦ ?_
        exact Operator.not_covers_three hc ha hb (hleft op hop p (by simp))
          (hleft op hop q (by simp)) hpq hcovers hp hq
      have hcomm := (ha.commutes hb hpq hp hq).inked_comm
      rw [Cell.inked_append, Cell.inked_append] at hcomm
      rw [hbefore]
      exact hcomm.symm
    · rw [hb.strokesAt_eq_nil hq]
      rfl
  · rw [ha.strokesAt_eq_nil hp]
    rfl

end Cells

/-! ## Texts -/

namespace Diagram

variable {d d' : Diagram}

theorem pagesFrom_congr (hcanvas : d.canvas = d'.canvas) (hlabels : d.rowLabels = d'.rowLabels)
    (cuts : List Int) : ∀ isFirst start,
      d.pagesFrom isFirst start cuts = d'.pagesFrom isFirst start cuts := by
  induction cuts with
  | nil =>
    intro isFirst start
    rfl
  | cons stop cuts ih =>
    intro isFirst start
    rw [pagesFrom, pagesFrom, ih, page, page, pageRows, pageRows, prefixes, prefixes, labelWidth,
      labelWidth, hcanvas, hlabels]

theorem render_congr (hcanvas : d.canvas = d'.canvas) (hwidths : d.layerWidths = d'.layerWidths)
    (hlabels : d.rowLabels = d'.rowLabels) (b : PageBudget) : d.render b = d'.render b := by
  have hwidth : d.labelWidth = d'.labelWidth := by
    rw [labelWidth, labelWidth, hlabels]
  rw [render, render, pages, pages, hwidths, hwidth, pagesFrom_congr hcanvas hlabels]

end Diagram

namespace Trace

variable {t t' : Trace} {c c' : Canvas}

theorem Exchanges.canvas_eq (h : t.Exchanges t') (hdraws : t.Draws c) (hdraws' : t'.Draws c') :
    c = c' := by
  have hcount := h.wireCount_eq
  have hfresh : Canvas.fresh t'.wireCount t'.width = Canvas.fresh t.wireCount t.width := by
    rw [hcount, h.width_eq]
  obtain ⟨P, p, q, Q, hplaced, hplaced'⟩ := h.exists_placed
  rw [Draws, hfresh, hplaced', hcount] at hdraws'
  rw [Draws, hplaced] at hdraws
  refine Canvas.ext_cell? ?_ ?_ fun row col ↦ ?_
  · rw [hdraws.wires_eq, hdraws'.wires_eq]
  · rw [hdraws.width_eq, hdraws'.width_eq]
  · rw [hdraws.cell?_eq, hdraws'.cell?_eq]
    cases hcell : (Canvas.fresh t.wireCount t.width).cell? row col with
    | none => rfl
    | some x =>
      rw [Canvas.cell?_fresh_of_inside (Canvas.inside_of_cell? hcell), Option.some.injEq] at hcell
      rw [Option.map_some, Option.map_some, ← hcell]
      have hsettled : ∀ op ∈ P ++ p :: q :: Q, ∃ a, op.IsSettled t.wireCount t.width a :=
        hplaced ▸ fun op hop ↦ exists_isSettled hop
      have hapart : (P ++ p :: q :: Q).Pairwise Operator.Apart := hplaced ▸ t.pairwise_placed
      exact congrArg some (inked_exchange hsettled hapart row col)

theorem Exchanges.instructions_ne_nil (h : t.Exchanges t') :
    t.instructions ≠ [] ∧ t'.instructions ≠ [] := by
  obtain ⟨i, a, b, ha, hb, -, rfl⟩ := h
  obtain ⟨pre, post, hl, hexchange⟩ := exists_exchangeAt ha hb
  rw [instructions_exchange, hexchange, hl]
  constructor
  · simp
  · simp

/-- Traces have the same text if they are drawn alike, in layers of the same widths. -/
theorem draw_congr (hne : t.instructions ≠ []) (hne' : t'.instructions ≠ [])
    (hcount : t'.wireCount = t.wireCount)
    (hwidths : (Slot.layers t.slots).map Layer.width = (Slot.layers t'.slots).map Layer.width)
    (hcanvas : ∀ c c', t.Draws c → t'.Draws c' → c = c') (budget : Value) :
    t.draw budget = t'.draw budget := by
  cases hb : PageBudget.ofValue budget with
  | error fault => rw [draw_of_ofValue_error hb, draw_of_ofValue_error hb]
  | ok b =>
    have hcanvas_iff : t'.HasCanvas ↔ t.HasCanvas := hasCanvas_congr hcount hwidths
    by_cases hroom : t.HasCanvas
    · obtain ⟨c, hdraws, hd⟩ := ofTrace_eq hroom
      obtain ⟨c', hdraws', hd'⟩ := ofTrace_eq (hcanvas_iff.mpr hroom)
      obtain rfl := hcanvas c c' hdraws hdraws'
      have hsame : (t.diagram c).canvas = (t'.diagram c).canvas := rfl
      have hlabels : (t.diagram c).rowLabels = (t'.diagram c).rowLabels := by
        rw [diagram, diagram, hcount]
      rw [draw_of_ofTrace hne hb hd, draw_of_ofTrace hne' hb hd',
        Diagram.render_congr hsame hwidths hlabels]
    · rw [Trace.draw_eq hne hb, Trace.draw_eq hne' hb, ofTrace_of_not_hasCanvas hroom,
        ofTrace_of_not_hasCanvas (mt hcanvas_iff.mp hroom), canvasRefusal, canvasRefusal, hcount]

theorem Exchanges.draw_eq (h : t.Exchanges t') (budget : Value) :
    t.draw budget = t'.draw budget :=
  draw_congr h.instructions_ne_nil.1 h.instructions_ne_nil.2 h.wireCount_eq
    (Slot.map_width_layers_perm h.slots_perm) (fun _ _ hdraws hdraws' ↦
      h.canvas_eq hdraws hdraws') budget

/-- **Independent instructions commute.** Any number of exchanges leaves the text as it is. -/
theorem draw_eq_of_exchanges (h : Relation.ReflTransGen Exchanges t t') (budget : Value) :
    t.draw budget = t'.draw budget := by
  induction h with
  | refl => rfl
  | tail _ hlast ih => rw [ih, hlast.draw_eq]

/-- Two boxes below each other may be drawn in either order. -/
theorem draw_eq_of_exchanges_two_boxes :
    (ofSingles 2 [("h", 0), ("x", 1)]).draw (.int 80) =
      (ofSingles 2 [("x", 1), ("h", 0)]).draw (.int 80) := by
  refine draw_eq_of_exchanges (Relation.ReflTransGen.single ⟨0, .single "h" 0, .single "x" 1, ?_⟩) _
  exact ⟨rfl, rfl, by decide, rfl⟩

end Trace

end WireDiagram
