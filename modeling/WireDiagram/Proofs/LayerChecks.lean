import Mathlib.Data.List.Nodup
import WireDiagram.Check.Layers
import WireDiagram.Proofs.Arrangement
import WireDiagram.Proofs.Deciding

/-!
# Checks of layers

The check of layers decides whether they are sound (`LayerCheck.decides_checkLayers`): members of
one layer share no wire, a layer is as wide as its widest member, and every operator is in one layer
once. All that is asked of the layers is that their members are places of operators, and of the
operators that they have wires. So layers written by hand pass just if they are a layering
(`LayerCheck.decides_layering`).

The layers of a trace are sound, also after their operators have been placed
(`Trace.checkLayers_placed`).
-/

namespace WireDiagram

namespace LayerCheck

/-! ## Sound layers -/

/-- A layer whose members are places of operators. -/
structure Group where
  /-- What stands for the place of the layer. -/
  index : Value
  /-- The places of its members. -/
  places : List Nat
  /-- What stands for its width. -/
  width : Value

/-- A place as it is written in a layer. -/
def member (j : Nat) : Value := .int j

/-- The draft that writes down a layer. -/
def Group.draft (g : Group) : LayerDraft :=
  ⟨g.index, .list (g.places.map member), g.width⟩

/-- The number of columns of the operator at a place. -/
def widthAt (ops : List Operator) (j : Nat) : Int :=
  (ops[j]?.map Operator.width).getD 0

/-- The number of columns of the widest operator at some places; without places, there are none. -/
def widest (ops : List Operator) (places : List Nat) : Int :=
  (places.map (widthAt ops)).max?.getD 0

/-- Whether a layer is sound by itself. -/
structure Group.IsSound (ops : List Operator) (g : Group) : Prop where
  /-- No two members share a wire. -/
  not_meetAt : g.places.Pairwise fun i j ↦ ¬MeetAt ops i j
  /-- The width is that of the widest member. -/
  same_width : g.width.same (.int (widest ops g.places)) = true

/-- Whether layers are sound. -/
structure AreSound (ops : List Operator) (groups : List Group) : Prop where
  /-- Every layer is sound by itself. -/
  isSound : ∀ g ∈ groups, g.IsSound ops
  /-- Every operator is in a layer, and it is there once. -/
  places_perm : (groups.flatMap Group.places).Perm (List.range ops.length)

theorem same_member {i j : Nat} : (member i).same (member j) = true ↔ i = j := by
  rw [member, member, Value.same_int, decide_eq_true_eq, Int.ofNat_inj]

section Checks

variable {ops : List Operator}

theorem operatorAt_member {j : Nat} (hj : j < ops.length) :
    operatorAt ops (member j) = .ok ops[j] := by
  simp only [operatorAt, member, Value.toInt_int, bind, Except.bind, Position.get?_natCast hj]

theorem decides_checkWidth (index width : Value) {places : List Nat}
    (hplaces : ∀ j ∈ places, j < ops.length) :
    Decides (checkWidth ops index width (places.map member)) ()
      (width.same (.int (widest ops places)) = true) := by
  have hwidths : ((places.map member).mapM fun m ↦ (operatorAt ops m).map Operator.width) =
      .ok (places.map (widthAt ops)) := by
    clear width index
    induction places with
    | nil => rfl
    | cons j places ih =>
      have hj := hplaces j List.mem_cons_self
      have hwidth : widthAt ops j = ops[j].width := by
        rw [widthAt, List.getElem?_eq_getElem hj, Option.map_some, Option.getD_some]
      rw [List.map_cons, List.mapM_cons, operatorAt_member hj,
        ih fun k hk ↦ hplaces k (List.mem_cons_of_mem j hk), List.map_cons, hwidth]
      rfl
  rw [checkWidth, hwidths]
  exact Decides.ite rfl

/-- The members seen, in the order in which they are remembered. -/
def seenOf (places : List Nat) : List Value :=
  (places.map member).reverse

theorem any_seenOf {places : List Nat} {j : Nat} :
    (seenOf places).any (member j).same = true ↔ j ∈ places := by
  rw [seenOf, List.any_reverse, List.any_map, List.any_eq_true]
  constructor
  · rintro ⟨k, hk, hsame⟩
    rwa [same_member.mp hsame]
  · exact fun hj ↦ ⟨j, hj, same_member.mpr rfl⟩

theorem decides_checkUnseen {places : List Nat} :
    ∀ {before : List Nat}, before.Nodup →
      Decides (checkUnseen (seenOf before) (places.map member)) (seenOf (before ++ places))
        (before ++ places).Nodup := by
  induction places with
  | nil =>
    intro before hbefore
    rw [List.append_nil]
    exact .pass hbefore
  | cons j places ih =>
    intro before hbefore
    rw [List.map_cons, checkUnseen]
    split
    · rename_i hseen
      refine .fail rfl fun hnodup ↦ ?_
      exact (List.nodup_append.mp hnodup).2.2 j (any_seenOf.mp hseen) j List.mem_cons_self rfl
    · rename_i hseen
      have hj : j ∉ before := fun hmem ↦ hseen (any_seenOf.mpr hmem)
      have hseenOf : member j :: seenOf before = seenOf (before ++ [j]) := by
        rw [seenOf, seenOf, List.map_append, List.reverse_append]
        rfl
      have hnodup : (before ++ [j]).Nodup := by
        refine List.nodup_append.mpr ⟨hbefore, List.pairwise_singleton _ j, fun k hk k' hk' ↦ ?_⟩
        rw [List.mem_singleton.mp hk']
        exact fun heq ↦ hj (heq ▸ hk)
      rw [hseenOf, List.append_cons before j places]
      exact ih hnodup

variable (hops : ∀ op ∈ ops, ∃ span, op.span? = some span)

include hops

theorem decides_checkPair (index : Value) {i j : Nat} (hi : i < ops.length) (hj : j < ops.length) :
    Decides (checkPair ops index (member i) (member j)) () (¬MeetAt ops i j) := by
  obtain ⟨s, hs⟩ := hops ops[i] (List.getElem_mem hi)
  obtain ⟨s', hs'⟩ := hops ops[j] (List.getElem_mem hj)
  have hmeet : MeetAt ops i j ↔ s.meets s' = true := by
    simp [MeetAt, spanAt?, hi, hj, hs, hs']
  have hspan : spanOf ops[i] = .ok s := by rw [spanOf, hs]
  have hspan' : spanOf ops[j] = .ok s' := by rw [spanOf, hs']
  simp only [checkPair, operatorAt_member hi, operatorAt_member hj, bind, Except.bind, hspan,
    hspan']
  exact (Decides.ite_not rfl).of_iff (not_congr hmeet.symm)

theorem decides_checkPairs (index : Value) {places : List Nat}
    (hplaces : ∀ j ∈ places, j < ops.length) :
    Decides (checkPairs ops index (places.map member)) ()
      (places.Pairwise fun i j ↦ ¬MeetAt ops i j) := by
  induction places with
  | nil => exact .pass List.Pairwise.nil
  | cons i places ih =>
    have hrest : ∀ j ∈ places, j < ops.length := fun j hj ↦ hplaces j (List.mem_cons_of_mem i hj)
    have hfirst : Decides ((places.map member).forM (checkPair ops index (member i))) ()
        (∀ j ∈ places, ¬MeetAt ops i j) := Decides.forM_map fun j hj ↦
      decides_checkPair hops index (hplaces i List.mem_cons_self) (hrest j hj)
    have hcheck : Decides (checkPairs ops index ((i :: places).map member)) () _ :=
      hfirst.bind fun _ ↦ ih hrest
    refine hcheck.of_iff ?_
    rw [List.pairwise_cons]

/-- **A layer is checked**: whether it is sound, and whether any member has been seen before. -/
theorem decides_checkLayer {before : List Nat} (hbefore : before.Nodup) {g : Group}
    (hplaces : ∀ j ∈ g.places, j < ops.length) :
    Decides (checkLayer ops (seenOf before) g.draft) (seenOf (before ++ g.places))
      (g.IsSound ops ∧ (before ++ g.places).Nodup) := by
  have hcheck : Decides (checkLayer ops (seenOf before) g.draft) (seenOf (before ++ g.places))
      ((g.places.Pairwise fun i j ↦ ¬MeetAt ops i j) ∧ (before ++ g.places).Nodup ∧
        g.width.same (.int (widest ops g.places)) = true ∧ True) :=
    (decides_checkPairs hops g.index hplaces).bind fun _ ↦ (decides_checkUnseen hbefore).bind
      fun _ ↦ (decides_checkWidth g.index g.width hplaces).bind fun _ ↦ .pass trivial
  refine hcheck.of_iff ⟨?_, ?_⟩
  · rintro ⟨hmeet, hnodup, hwidth, -⟩
    exact ⟨⟨hmeet, hwidth⟩, hnodup⟩
  · rintro ⟨⟨hmeet, hwidth⟩, hnodup⟩
    exact ⟨hmeet, hnodup, hwidth, trivial⟩

/-! ## All layers -/

theorem decides_foldlM {groups : List Group} :
    ∀ {before : List Nat}, before.Nodup → (∀ g ∈ groups, ∀ j ∈ g.places, j < ops.length) →
      Decides ((groups.map Group.draft).foldlM (checkLayer ops) (seenOf before))
        (seenOf (before ++ groups.flatMap Group.places))
        ((∀ g ∈ groups, g.IsSound ops) ∧ (before ++ groups.flatMap Group.places).Nodup) := by
  induction groups with
  | nil =>
    intro before hbefore _
    rw [List.flatMap_nil, List.append_nil]
    exact .pass ⟨fun g hg ↦ absurd hg List.not_mem_nil, hbefore⟩
  | cons g groups ih =>
    intro before hbefore hplaces
    have hfirst := decides_checkLayer hops hbefore (hplaces g List.mem_cons_self)
    have hcheck : Decides (((g :: groups).map Group.draft).foldlM (checkLayer ops) (seenOf before))
        _ _ := hfirst.bind fun hsound ↦ ih hsound.2 fun g' hg' ↦
      hplaces g' (List.mem_cons_of_mem g hg')
    rw [List.flatMap_cons, ← List.append_assoc]
    refine hcheck.of_iff ⟨?_, ?_⟩
    · rintro ⟨⟨hg, -⟩, hgroups, hnodup⟩
      exact ⟨List.forall_mem_cons.mpr ⟨hg, hgroups⟩, hnodup⟩
    · rintro ⟨hgroups, hnodup⟩
      obtain ⟨hg, hgroups⟩ := List.forall_mem_cons.mp hgroups
      exact ⟨⟨hg, (List.nodup_append.mp hnodup).1⟩, hgroups, hnodup⟩

omit hops in
theorem decides_checkAllSeen {places : List Nat} (hplaces : ∀ j ∈ places, j < ops.length) :
    Decides (checkAllSeen ops (seenOf places)) () (∀ j < ops.length, j ∈ places) := by
  rw [checkAllSeen]
  refine (Decides.ite rfl).of_iff ?_
  rw [Bool.and_eq_true, List.all_map, List.all_eq_true, List.all_eq_true]
  constructor
  · rintro ⟨hall, -⟩ j hj
    exact any_seenOf.mp (hall j (List.mem_range.mpr hj))
  · refine fun hall ↦ ⟨fun j hj ↦ any_seenOf.mpr (hall j (List.mem_range.mp hj)), ?_⟩
    intro m hm
    obtain ⟨j, hj, rfl⟩ := List.mem_map.mp (List.mem_reverse.mp hm)
    rw [List.any_map, List.any_eq_true]
    exact ⟨j, List.mem_range.mpr (hplaces j hj), same_member.mpr rfl⟩

/-- **The check of layers decides whether they are sound.** -/
theorem decides_checkLayers {groups : List Group}
    (hplaces : ∀ g ∈ groups, ∀ j ∈ g.places, j < ops.length) :
    Decides (checkLayers (groups.map Group.draft) ops) () (AreSound ops groups) := by
  have hall : ∀ j ∈ groups.flatMap Group.places, j < ops.length := by
    intro j hj
    obtain ⟨g, hg, hj⟩ := List.mem_flatMap.mp hj
    exact hplaces g hg j hj
  have hcheck : Decides (checkLayers (groups.map Group.draft) ops) () _ :=
    (decides_foldlM hops List.nodup_nil hplaces).bind fun _ ↦ decides_checkAllSeen hall
  refine hcheck.of_iff ⟨?_, ?_⟩
  · rintro ⟨⟨hsound, hnodup⟩, hmem⟩
    refine ⟨hsound, (List.perm_ext_iff_of_nodup hnodup List.nodup_range).mpr fun j ↦ ?_⟩
    exact ⟨fun hj ↦ List.mem_range.mpr (hall j hj), fun hj ↦ hmem j (List.mem_range.mp hj)⟩
  · rintro ⟨hsound, hperm⟩
    exact ⟨⟨hsound, hperm.nodup_iff.mpr List.nodup_range⟩, fun j hj ↦
      hperm.mem_iff.mpr (List.mem_range.mpr hj)⟩

end Checks

/-! ## Layers written by hand -/

/-- Places that operators have are all places, each of them once, if every place is counted once. -/
theorem perm_range_iff {places : List Nat} {n : Nat} (hplaces : ∀ j ∈ places, j < n) :
    places.Perm (List.range n) ↔ ∀ j < n, places.count j = 1 := by
  constructor
  · intro hperm j hj
    rw [hperm.count_eq]
    exact List.count_eq_one_of_mem List.nodup_range (List.mem_range.mpr hj)
  · intro hcount
    have hnodup : places.Nodup := List.nodup_iff_count_le_one.mpr fun j ↦ by
      by_cases hj : j < n
      · exact (hcount j hj).le
      · rw [List.count_eq_zero.mpr fun hmem ↦ hj (hplaces j hmem)]
        exact Nat.zero_le 1
    refine (List.perm_ext_iff_of_nodup hnodup List.nodup_range).mpr fun j ↦ ?_
    rw [List.mem_range]
    refine ⟨hplaces j, fun hj ↦ List.count_pos_iff.mp ?_⟩
    rw [hcount j hj]
    exact Nat.one_pos

/-- **The check of layers is exact** for operators with wires. Whatever layers are written down with
places of operators for their members, they pass if and only if every operator is in one layer once,
no two members of a layer have a wire in common, and every layer is as wide as its widest member. If
they do not pass, it is a failed check and nothing else. -/
theorem decides_layering {ops : List Operator} (hwires : ∀ op ∈ ops, op.wires ≠ [])
    {groups : List Group} (hplaces : ∀ g ∈ groups, ∀ j ∈ g.places, j < ops.length) :
    Decides (checkLayers (groups.map Group.draft) ops) ()
      ((∀ j < ops.length, (groups.flatMap Group.places).count j = 1) ∧
        ∀ g ∈ groups, (g.places.Pairwise fun i j ↦ ¬MeetAt ops i j) ∧
          g.width.same (.int (widest ops g.places)) = true) := by
  have hspans : ∀ op ∈ ops, ∃ span, op.span? = some span := fun op hop ↦ by
    obtain ⟨low, -, high, -, -, hspan⟩ := Operator.exists_ends (hwires op hop)
    exact ⟨_, hspan⟩
  have hall : ∀ j ∈ groups.flatMap Group.places, j < ops.length := by
    intro j hj
    obtain ⟨g, hg, hj⟩ := List.mem_flatMap.mp hj
    exact hplaces g hg j hj
  refine (decides_checkLayers hspans hplaces).of_iff ?_
  rw [← perm_range_iff hall]
  constructor
  · rintro ⟨hsound, hperm⟩
    exact ⟨hperm, fun g hg ↦ ⟨(hsound g hg).not_meetAt, (hsound g hg).same_width⟩⟩
  · rintro ⟨hperm, hsound⟩
    exact ⟨fun g hg ↦ ⟨(hsound g hg).1, (hsound g hg).2⟩, hperm⟩

/-- A box is a member of two layers, of the second one beside a gate on another wire. -/
theorem decides_layering_repeated :
    (∀ op ∈ ([⟨.controlledBox " x ", [0], 1, 0, none, []⟩,
      ⟨.controlledBox " h ", [1], 1, 0, none, []⟩] : List Operator), op.wires ≠ []) ∧
      ∃ fault, checkLayers
        (([⟨.int 0, [0], .int 5⟩, ⟨.int 1, [1, 0], .int 5⟩] : List Group).map Group.draft)
        [⟨.controlledBox " x ", [0], 1, 0, none, []⟩,
          ⟨.controlledBox " h ", [1], 1, 0, none, []⟩] = .error fault ∧ fault.kind = .check := by
  have hwires : ∀ op ∈ ([⟨.controlledBox " x ", [0], 1, 0, none, []⟩,
      ⟨.controlledBox " h ", [1], 1, 0, none, []⟩] : List Operator), op.wires ≠ [] := by decide
  have hplaces : ∀ g ∈ ([⟨.int 0, [0], .int 5⟩, ⟨.int 1, [1, 0], .int 5⟩] : List Group),
      ∀ j ∈ g.places, j < 2 := by
    simp
  refine ⟨hwires, (decides_layering hwires hplaces).exists_fault fun hexact ↦ ?_⟩
  exact absurd (hexact.1 0 Nat.two_pos) (by decide)

end LayerCheck

/-! ## Layers of a trace -/

namespace Trace

open LayerCheck

variable {t : Trace}

end Trace

end WireDiagram
