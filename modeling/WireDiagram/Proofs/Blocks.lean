import WireDiagram.Proofs.Cutting

/-!
# Layers on pages

Cutting a diagram into pages divides its layers into blocks, one for each page. The columns at which
pages end are the ends of these blocks (`PageBudget.cuts_eq`), and the blocks keep to two rules
(`PageBudget.IsDivision`): the first page has no layer or has two columns to spare, and any other
page has a single layer or has two columns to spare.

## Blocks beside the cuts

The cuts are computed without the blocks. Here the same recursion keeps the block of the page at
hand, and what is known of a page is known of its block as soon as it is closed
(`PageBudget.exists_blocksFrom`).
-/

namespace WireDiagram

theorem totalWidth_nonneg {widths : List Int} (h : ∀ w ∈ widths, 0 ≤ w) :
    0 ≤ totalWidth widths := by
  induction widths with
  | nil => exact Int.le_refl 0
  | cons w widths ih =>
    have hw := h w List.mem_cons_self
    have hrest := ih fun w' hw' ↦ h w' (List.mem_cons_of_mem w hw')
    rw [totalWidth_cons]
    omega

theorem le_totalWidth_of_mem {widths : List Int} (h : ∀ w ∈ widths, 0 ≤ w) {width : Int}
    (hmem : width ∈ widths) : width ≤ totalWidth widths := by
  obtain ⟨xs, ys, rfl⟩ := List.append_of_mem hmem
  have hxs := totalWidth_nonneg fun w hw ↦ h w (List.mem_append_left _ hw)
  have hys := totalWidth_nonneg fun w hw ↦ h w (List.mem_append_right _ (List.mem_cons_of_mem _ hw))
  rw [totalWidth_append, totalWidth_cons]
  omega

/-- The columns at which pages end that hold some blocks of layers, the first of them from column
`start` on. -/
def blockEnds (start : Int) : List (List Int) → List Int
  | [] => []
  | block :: blocks => (start + totalWidth block) :: blockEnds (start + totalWidth block) blocks

theorem isEmpty_blockEnds (start : Int) (blocks : List (List Int)) :
    (blockEnds start blocks).isEmpty = blocks.isEmpty := by
  cases blocks <;> rfl

@[simp] theorem length_blockEnds (start : Int) (blocks : List (List Int)) :
    (blockEnds start blocks).length = blocks.length := by
  induction blocks generalizing start with
  | nil => rfl
  | cons block blocks ih => rw [blockEnds, List.length_cons, List.length_cons, ih]

namespace PageBudget

/-- The widths of the layers on each page, for layers still to come and a page of which `used`
columns are taken and that holds `block`. -/
def blocksFrom (b : PageBudget) (used : Int) (block : List Int) : List Int → List (List Int)
  | [] => [block]
  | width :: widths =>
    if used + width ≥ (b.columns : Int) - 1 then block :: blocksFrom b width [width] widths
    else blocksFrom b (used + width) (block ++ [width]) widths

/-- The widths of the layers on each page. -/
def blocks (b : PageBudget) (widths : List Int) (labelWidth : Int) : List (List Int) :=
  b.blocksFrom labelWidth [] widths

/-- Whether blocks divide layers among pages: a first page, which may hold none of them, and other
pages. -/
structure IsDivision (b : PageBudget) (widths : List Int) (labelWidth : Int) (first : List Int)
    (rest : List (List Int)) : Prop where
  /-- The layers are those of the pages, in order. -/
  append_flatten : first ++ rest.flatten = widths
  /-- A first page with layers leaves two columns of the budget. -/
  first_fits : first = [] ∨ labelWidth + totalWidth first < (b.columns : Int) - 1
  /-- Any other page has a layer, and leaves two columns of the budget if it has more. -/
  rest_fits : ∀ block ∈ rest, (∃ width, block = [width]) ∨
    block ≠ [] ∧ totalWidth block < (b.columns : Int) - 1

namespace IsDivision

variable {b : PageBudget} {widths : List Int} {first : List Int} {rest : List (List Int)}

theorem mem_iff {labelWidth : Int} (h : b.IsDivision widths labelWidth first rest) {width : Int} :
    width ∈ widths ↔ ∃ block ∈ first :: rest, width ∈ block := by
  rw [← h.append_flatten, ← List.flatten_cons, List.mem_flatten]

variable {labelWidth : Nat} (h : b.IsDivision widths labelWidth first rest)
  (hwidths : ∀ w ∈ widths, 0 ≤ w)

include h hwidths

theorem le_totalWidth {block : List Int} (hblock : block ∈ first :: rest) {width : Int}
    (hmem : width ∈ block) : width ≤ totalWidth block :=
  le_totalWidth_of_mem (fun _ hw ↦ hwidths _ (h.mem_iff.mpr ⟨block, hblock, hw⟩)) hmem

/-- **The layers of every page are within the budget** if and only if every layer is. What else is
on a page is not counted. -/
theorem forall_totalWidth_le_iff : (∀ block ∈ first :: rest, totalWidth block ≤ b.columns) ↔
    ∀ width ∈ widths, width ≤ b.columns := by
  constructor
  · intro hblocks width hwidth
    obtain ⟨block, hblock, hmem⟩ := h.mem_iff.mp hwidth
    exact Int.le_trans (h.le_totalWidth hwidths hblock hmem) (hblocks block hblock)
  · intro hle
    refine List.forall_mem_cons.mpr ⟨?_, fun block hblock ↦ ?_⟩
    · rcases h.first_fits with rfl | hfits
      · rw [totalWidth_nil]
        omega
      · omega
    · rcases h.rest_fits block hblock with ⟨width, rfl⟩ | ⟨-, hfits⟩
      · rw [totalWidth_singleton]
        exact hle width (h.mem_iff.mpr ⟨_, List.mem_cons_of_mem _ hblock, List.mem_cons_self⟩)
      · omega

end IsDivision

variable (b : PageBudget)

/-- The page at hand takes some more layers, which leave two columns of the budget, and the others
go to pages that keep to the rule. -/
theorem exists_blocksFrom (used : Int) (block widths : List Int) :
    ∃ more rest, b.blocksFrom used block widths = (block ++ more) :: rest ∧
      more ++ rest.flatten = widths ∧
      (more = [] ∨ used + totalWidth more < (b.columns : Int) - 1) ∧
      ∀ other ∈ rest, (∃ width, other = [width]) ∨
        other ≠ [] ∧ totalWidth other < (b.columns : Int) - 1 := by
  induction widths generalizing used block with
  | nil => exact ⟨[], [], by rw [blocksFrom, List.append_nil], rfl, Or.inl rfl, by simp⟩
  | cons width widths ih =>
    rw [blocksFrom]
    split
    · -- The layer starts a page of its own, whether it fits or not.
      obtain ⟨more, rest, hblocks, hflatten, hfits, hrest⟩ := ih width [width]
      refine ⟨[], ([width] ++ more) :: rest, by rw [hblocks, List.append_nil], ?_, Or.inl rfl, ?_⟩
      · rw [List.flatten_cons, List.nil_append, List.append_assoc, hflatten, List.singleton_append]
      · refine List.forall_mem_cons.mpr ⟨?_, hrest⟩
        rcases hfits with rfl | hfits
        · exact Or.inl ⟨width, rfl⟩
        · refine Or.inr ⟨List.cons_ne_nil _ _, ?_⟩
          rw [totalWidth_append, totalWidth_singleton]
          exact hfits
    · rename_i hroom
      obtain ⟨more, rest, hblocks, hflatten, hfits, hrest⟩ := ih (used + width) (block ++ [width])
      refine ⟨width :: more, rest, ?_, by rw [List.cons_append, hflatten], Or.inr ?_, hrest⟩
      · rw [hblocks, List.append_assoc, List.singleton_append]
      · rw [← List.singleton_append, totalWidth_append, totalWidth_singleton]
        rcases hfits with rfl | hfits
        · rw [totalWidth_nil]
          omega
        · omega

/-- **Blocks divide the layers among pages.** -/
theorem exists_isDivision (widths : List Int) (labelWidth : Int) :
    ∃ first rest, b.blocks widths labelWidth = first :: rest ∧
      b.IsDivision widths labelWidth first rest := by
  obtain ⟨first, rest, hblocks, hflatten, hfits, hrest⟩ := b.exists_blocksFrom labelWidth [] widths
  exact ⟨first, rest, hblocks, hflatten, hfits, hrest⟩

theorem cutsFrom_eq_blockEnds (start used : Int) (block widths : List Int) :
    b.cutsFrom (start + totalWidth block) used widths =
      blockEnds start (b.blocksFrom used block widths) := by
  induction widths generalizing start used block with
  | nil => rfl
  | cons width widths ih =>
    rw [cutsFrom, blocksFrom]
    split
    · rw [blockEnds, ← ih, totalWidth_singleton]
    · rw [← ih, totalWidth_append, totalWidth_singleton, Int.add_assoc]

/-- **Pages end where their blocks end.** -/
theorem cuts_eq (widths : List Int) (labelWidth : Int) :
    b.cuts widths labelWidth = blockEnds 0 (b.blocks widths labelWidth) :=
  b.cutsFrom_eq_blockEnds 0 labelWidth [] widths

end PageBudget

end WireDiagram
