import WireDiagram.Proofs.Blocks

/-!
# The fewest pages

There are many ways to divide layers among pages that keep to the budget. The cuts, which end a page
as late as possible, need the fewest pages of all of them (`PageBudget.isFewest_cuts`), and so a
larger budget or shorter labels never make more pages.

## Staying ahead

The cuts are compared with the page ends of any other division while both go over the same layers.
Either both are on the page of the same number, and then the cuts have used no more of it. Or the
other division has turned to a later page, and then the pages that it has ended in between are ended
no later than the page of the cuts will be. `PageBudget.Trails` says this of one moment, and
`PageBudget.staysAhead_cutsFrom` carries it through all layers.
-/

namespace WireDiagram

/-! ## Page ends -/

section BlockEnds

variable {blocks : List (List Int)}

theorem blockEnds_cons_cons (start width : Int) (block : List Int) (blocks : List (List Int)) :
    blockEnds start ((width :: block) :: blocks) = blockEnds (start + width) (block :: blocks) := by
  rw [blockEnds, blockEnds, totalWidth_cons, Int.add_assoc]

theorem le_of_mem_blockEnds (h : ∀ w ∈ blocks.flatten, 0 ≤ w) :
    ∀ {start : Int}, ∀ stop ∈ blockEnds start blocks, start ≤ stop := by
  induction blocks with
  | nil => exact fun stop hstop ↦ absurd hstop List.not_mem_nil
  | cons block blocks ih =>
    intro start stop hstop
    rw [List.flatten_cons] at h
    have hblock := totalWidth_nonneg fun w hw ↦ h w (List.mem_append_left _ hw)
    rcases List.mem_cons.mp hstop with rfl | hstop
    · omega
    · have := ih (fun w hw ↦ h w (List.mem_append_right _ hw)) stop hstop
      omega

theorem pairwise_blockEnds (h : ∀ w ∈ blocks.flatten, 0 ≤ w) (start : Int) :
    (blockEnds start blocks).Pairwise (· ≤ ·) := by
  induction blocks generalizing start with
  | nil => exact List.Pairwise.nil
  | cons block blocks ih =>
    rw [List.flatten_cons] at h
    have hrest : ∀ w ∈ blocks.flatten, 0 ≤ w := fun w hw ↦ h w (List.mem_append_right _ hw)
    exact List.pairwise_cons.mpr ⟨le_of_mem_blockEnds hrest, ih hrest _⟩

theorem exists_take_of_mem_blockEnds {start stop : Int} (h : stop ∈ blockEnds start blocks) :
    ∃ k, stop = start + totalWidth (blocks.flatten.take k) := by
  induction blocks generalizing start with
  | nil => exact absurd h List.not_mem_nil
  | cons block blocks ih =>
    rw [List.flatten_cons]
    rcases List.mem_cons.mp h with rfl | h
    · exact ⟨block.length, by rw [List.take_left]⟩
    · obtain ⟨k, rfl⟩ := ih h
      refine ⟨block.length + k, ?_⟩
      rw [List.take_length_add_append, totalWidth_append, Int.add_assoc]

theorem getLast?_blockEnds (start : Int) (block : List Int) (blocks : List (List Int)) :
    (blockEnds start (block :: blocks)).getLast? =
      some (start + totalWidth (block :: blocks).flatten) := by
  induction blocks generalizing start block with
  | nil => rw [blockEnds, blockEnds, List.getLast?_singleton, List.flatten_singleton]
  | cons next blocks ih =>
    rw [blockEnds, List.getLast?_cons, ih, Option.getD_some, List.flatten_cons (l := block),
      totalWidth_append, Int.add_assoc]

end BlockEnds

/-! ## Staying ahead -/

/-- Whether pages end no earlier than others do, page by page, and are no more of them. -/
structure StaysAhead (cuts stops : List Int) : Prop where
  /-- There are no more pages. -/
  length_le : cuts.length ≤ stops.length
  /-- No page ends earlier. -/
  stop_le : ∀ (k : Nat) (cut stop : Int), cuts[k]? = some cut → stops[k]? = some stop → stop ≤ cut

theorem StaysAhead.cons {cut stop : Int} {cuts stops : List Int} (hle : stop ≤ cut)
    (h : StaysAhead cuts stops) : StaysAhead (cut :: cuts) (stop :: stops) where
  length_le := Nat.succ_le_succ h.length_le
  stop_le k cut' stop' hcut hstop := by
    match k with
    | 0 =>
      obtain rfl : cut = cut' := Option.some.inj hcut
      obtain rfl : stop = stop' := Option.some.inj hstop
      exact hle
    | k + 1 => exact h.stop_le k cut' stop' hcut hstop

theorem staysAhead_singleton {cut stop : Int} {stops : List Int}
    (h : ∀ stop' ∈ stop :: stops, stop' ≤ cut) : StaysAhead [cut] (stop :: stops) :=
  .cons (h stop List.mem_cons_self) ⟨Nat.zero_le _, by simp⟩

namespace PageBudget

/-- Whether a page after the first may hold some layers: one alone, or several that leave two
columns of the budget. -/
def Admits (b : PageBudget) (block : List Int) : Prop :=
  (∃ width, block = [width]) ∨ block ≠ [] ∧ totalWidth block < (b.columns : Int) - 1

/-- What the cuts, on a page of which `used` columns are taken, know of another division of the same
layers that has still to put `block` on its page. It is on the same page, or it has `passed` on to a
later one. -/
def Trails (b : PageBudget) (used : Int) (passed block : List Int) : Prop :=
  if passed = [] then block = [] ∨ used + totalWidth block < (b.columns : Int) - 1
  else block.length ≤ 1 ∨ totalWidth block < (b.columns : Int) - 1

variable {b : PageBudget} {col used width : Int} {widths passed block : List Int}
  {rest : List (List Int)}

/-- The division to compare with has the next layer on the page that it is on, once it has turned
that page if it had to. -/
theorem exists_turned (hflatten : block ++ rest.flatten = width :: widths)
    (hrest : ∀ other ∈ rest, b.Admits other) (htrails : b.Trails used passed block)
    (hpassed : ∀ stop ∈ passed, stop ≤ col) :
    ∃ passed' block' rest', passed ++ blockEnds col (block :: rest) =
        passed' ++ blockEnds (col + width) (block' :: rest') ∧
      block' ++ rest'.flatten = widths ∧ (∀ other ∈ rest', b.Admits other) ∧
        b.Trails used passed' (width :: block') ∧ ∀ stop ∈ passed', stop ≤ col := by
  match block with
  | w :: block =>
    obtain ⟨rfl, hlater⟩ := List.cons.inj hflatten
    exact ⟨passed, block, rest, by rw [blockEnds_cons_cons], hlater, hrest, htrails, hpassed⟩
  | [] =>
    match rest with
    | [] => exact absurd hflatten.symm (List.cons_ne_nil _ _)
    | other :: rest =>
      have hother := hrest other List.mem_cons_self
      -- A later page holds a layer, so this is the next one.
      have hne : other ≠ [] := by
        rcases hother with ⟨w, rfl⟩ | ⟨hne, -⟩
        · exact List.cons_ne_nil w []
        · exact hne
      obtain ⟨w, block, rfl⟩ := List.exists_cons_of_ne_nil hne
      rw [List.nil_append, List.flatten_cons, List.cons_append] at hflatten
      obtain ⟨rfl, hlater⟩ := List.cons.inj hflatten
      refine ⟨passed ++ [col], block, rest, ?_, hlater,
        fun other hother ↦ hrest other (List.mem_cons_of_mem _ hother), ?_, ?_⟩
      · rw [blockEnds, totalWidth_nil, Int.add_zero, blockEnds_cons_cons, List.append_assoc,
          List.singleton_append]
      · rw [Trails, if_neg (by simp)]
        rcases hother with ⟨w', hsingle⟩ | ⟨-, hfits⟩
        · exact Or.inl (by rw [hsingle]; exact Nat.le_refl 1)
        · exact Or.inr hfits
      · intro stop hstop
        rcases List.mem_append.mp hstop with hstop | hstop
        · exact hpassed stop hstop
        · exact Int.le_of_eq (List.mem_singleton.mp hstop)

theorem Trails.keep (h : b.Trails used passed (width :: block)) (hwidth : 0 ≤ width) :
    b.Trails (used + width) passed block := by
  rw [Trails, totalWidth_cons] at h
  rw [Trails]
  split at h
  · rename_i hnil
    rw [if_pos hnil]
    rcases h with h | h
    · exact absurd h (List.cons_ne_nil _ _)
    · exact Or.inr (by omega)
  · rename_i hnil
    rw [if_neg hnil]
    rw [List.length_cons] at h
    omega

theorem Trails.cut (h : b.Trails used passed (width :: block)) (hwidths : ∀ w ∈ block, 0 ≤ w)
    (hwidth : 0 ≤ width) (hfull : (b.columns : Int) - 1 ≤ used + width) :
    ∃ stop passed', passed = stop :: passed' ∧ b.Trails width passed' block := by
  have hblock := totalWidth_nonneg hwidths
  rw [Trails, totalWidth_cons] at h
  match passed with
  | [] =>
    rw [if_pos rfl] at h
    rcases h with h | h
    · exact absurd h (List.cons_ne_nil _ _)
    · omega
  | stop :: passed =>
    rw [if_neg (List.cons_ne_nil _ _), List.length_cons] at h
    refine ⟨stop, passed, rfl, ?_⟩
    rw [Trails]
    split
    · rcases h with h | h
      · exact Or.inl (List.length_eq_zero_iff.mp (by omega))
      · exact Or.inr h
    · omega

/-- **The cuts stay ahead** of any other division of the layers still to come. -/
theorem staysAhead_cutsFrom (hwidths : ∀ w ∈ widths, 0 ≤ w)
    (hflatten : block ++ rest.flatten = widths) (hrest : ∀ other ∈ rest, b.Admits other)
    (htrails : b.Trails used passed block) (hpassed : ∀ stop ∈ passed, stop ≤ col) :
    StaysAhead (b.cutsFrom col used widths) (passed ++ blockEnds col (block :: rest)) := by
  induction widths generalizing col used passed block rest with
  | nil =>
    obtain ⟨rfl, hnil⟩ := List.append_eq_nil_iff.mp hflatten
    -- No layer is left, so no page is.
    have hrest' : rest = [] := by
      refine List.eq_nil_iff_forall_not_mem.mpr fun other hother ↦ ?_
      have hempty := List.flatten_eq_nil_iff.mp hnil other hother
      rcases hrest other hother with ⟨w, rfl⟩ | ⟨hne, -⟩
      · exact absurd hempty (List.cons_ne_nil _ _)
      · exact hne hempty
    rw [cutsFrom, hrest', blockEnds, blockEnds, totalWidth_nil, Int.add_zero]
    have hall : ∀ stop ∈ passed ++ [col], stop ≤ col := by
      intro stop hstop
      rcases List.mem_append.mp hstop with hstop | hstop
      · exact hpassed stop hstop
      · exact Int.le_of_eq (List.mem_singleton.mp hstop)
    obtain ⟨stop, stops, hstops⟩ := List.exists_cons_of_ne_nil
      (List.append_ne_nil_of_right_ne_nil passed (List.cons_ne_nil col []))
    rw [hstops] at hall ⊢
    exact staysAhead_singleton hall
  | cons width widths ih =>
    have hwidth := hwidths width List.mem_cons_self
    have hlater : ∀ w ∈ widths, 0 ≤ w := fun w hw ↦ hwidths w (List.mem_cons_of_mem width hw)
    obtain ⟨passed, block, rest, hends, hflatten, hrest, htrails, hpassed⟩ :=
      exists_turned hflatten hrest htrails hpassed
    rw [hends, cutsFrom]
    split
    · rename_i hfull
      have hblock : ∀ w ∈ block, 0 ≤ w := fun w hw ↦
        hlater w (hflatten ▸ List.mem_append_left _ hw)
      obtain ⟨stop, passed, rfl, hcut⟩ := htrails.cut hblock hwidth hfull
      rw [List.cons_append]
      refine .cons (hpassed stop List.mem_cons_self) (ih hlater hflatten hrest hcut ?_)
      intro stop' hstop'
      have := hpassed stop' (List.mem_cons_of_mem stop hstop')
      omega
    · refine ih hlater hflatten hrest (htrails.keep hwidth) fun stop hstop ↦ ?_
      have := hpassed stop hstop
      omega

/-! ## The cuts -/

/-- Whether pages are a division of layers with as few pages as any, of which none ends earlier than
that page does in another division. -/
structure IsFewest (b : PageBudget) (widths : List Int) (labelWidth : Int) (cuts : List Int) :
    Prop where
  /-- The pages end where the blocks of a division end. -/
  exists_division : ∃ first rest, b.IsDivision widths labelWidth first rest ∧
    cuts = blockEnds 0 (first :: rest)
  /-- Pages end from left to right. -/
  pairwise_le : cuts.Pairwise (· ≤ ·)
  /-- Pages end between layers. -/
  exists_take : ∀ cut ∈ cuts, ∃ k, cut = totalWidth (widths.take k)
  /-- The last page ends with the last layer. -/
  getLast?_eq : cuts.getLast? = some (totalWidth widths)
  /-- No page ends earlier than that page of another division. -/
  stop_le : ∀ first rest, b.IsDivision widths labelWidth first rest →
    ∀ (k : Nat) (cut stop : Int), cuts[k]? = some cut →
      (blockEnds 0 (first :: rest))[k]? = some stop → stop ≤ cut
  /-- No division has fewer pages. -/
  length_le : ∀ first rest, b.IsDivision widths labelWidth first rest →
    cuts.length ≤ (first :: rest).length

/-- A division also keeps to a larger budget, and to shorter labels. -/
theorem IsDivision.mono {b' : PageBudget} {labelWidth labelWidth' : Int} {first : List Int}
    (h : b.IsDivision widths labelWidth first rest) (hcolumns : b.columns ≤ b'.columns)
    (hlabels : labelWidth' ≤ labelWidth) : b'.IsDivision widths labelWidth' first rest where
  append_flatten := h.append_flatten
  first_fits := h.first_fits.imp_right fun hfits ↦ by omega
  rest_fits block hblock := (h.rest_fits block hblock).imp_right fun ⟨hne, hfits⟩ ↦
    ⟨hne, by omega⟩

theorem IsDivision.staysAhead {labelWidth : Int} {first : List Int}
    (h : b.IsDivision widths labelWidth first rest) (hwidths : ∀ w ∈ widths, 0 ≤ w) :
    StaysAhead (b.cuts widths labelWidth) (blockEnds 0 (first :: rest)) := by
  have htrails : b.Trails labelWidth [] first := by
    rw [Trails, if_pos rfl]
    exact h.first_fits
  exact staysAhead_cutsFrom hwidths h.append_flatten h.rest_fits htrails (by simp)

theorem IsDivision.length_cuts_le {labelWidth : Int} {first : List Int}
    (h : b.IsDivision widths labelWidth first rest) (hwidths : ∀ w ∈ widths, 0 ≤ w) :
    (b.cuts widths labelWidth).length ≤ (first :: rest).length := by
  rw [← length_blockEnds 0]
  exact (h.staysAhead hwidths).length_le

/-- **The cuts divide the layers into the fewest pages**, and into no more of them when the budget
grows or the labels shrink. -/
theorem isFewest_cuts (b : PageBudget) {widths : List Int} (hwidths : ∀ w ∈ widths, 0 ≤ w)
    (labelWidth : Int) : b.IsFewest widths labelWidth (b.cuts widths labelWidth) ∧
      ∀ (b' : PageBudget) (labelWidth' : Int), b.columns ≤ b'.columns → labelWidth' ≤ labelWidth →
        (b'.cuts widths labelWidth').length ≤ (b.cuts widths labelWidth).length := by
  obtain ⟨first, rest, hblocks, hdiv⟩ := b.exists_isDivision widths labelWidth
  have hcuts : b.cuts widths labelWidth = blockEnds 0 (first :: rest) := by
    rw [b.cuts_eq, hblocks]
  have hflatten : (first :: rest).flatten = widths := hdiv.append_flatten
  constructor
  · refine ⟨⟨first, rest, hdiv, hcuts⟩, ?_, fun cut hcut ↦ ?_, ?_,
      fun _ _ hother ↦ (hother.staysAhead hwidths).stop_le,
      fun _ _ hother ↦ hother.length_cuts_le hwidths⟩
    · rw [hcuts]
      exact pairwise_blockEnds (by rwa [hflatten]) 0
    · rw [hcuts] at hcut
      obtain ⟨k, hk⟩ := exists_take_of_mem_blockEnds hcut
      exact ⟨k, by rw [hk, Int.zero_add, hflatten]⟩
    · rw [hcuts, getLast?_blockEnds, Int.zero_add, hflatten]
  · intro b' labelWidth' hcolumns hlabels
    have hlength : (b.cuts widths labelWidth).length = (first :: rest).length := by
      rw [hcuts, length_blockEnds]
    rw [hlength]
    exact (hdiv.mono hcolumns hlabels).length_cuts_le hwidths

/-- Labels that leave no room for a layer, a layer without columns and one that is wider than a
page. -/
theorem isFewest_cuts_wide_layer :
    (⟨8, by decide⟩ : PageBudget).IsFewest [3, 0, 9, 2] 5 [0, 3, 12, 14] :=
  (@isFewest_cuts ⟨8, by decide⟩ [3, 0, 9, 2] (by decide) 5).1

end PageBudget

end WireDiagram
