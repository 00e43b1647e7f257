import WireDiagram.Page
import WireDiagram.Text.Split

/-!
# Splitting what was joined

Splitting a text takes a joined text apart again if no separator is found too early. This is all
that `Split.IsFree` asks for, and it depends on what follows: the end of one part and the start of
the separator behind it may hold a separator as well.

## Lines and pages

A text of lines splits into these lines if no line holds a line feed (`Split.split_lineText`). Pages
are texts of lines, and the line between them is made of characters that lines may hold as well.
Still pages are found again (`Split.split_joinPages`): the line between pages is followed by an
empty one, pages hold no empty line, and the last line of a page that is followed by another is no
such line itself.
-/

namespace WireDiagram.Split

/-! ## Free texts -/

/-- Whether a separator starts nowhere in a text that is followed by another one. -/
def IsFree (sep : List Char) : List Char → List Char → Prop
  | [], _ => True
  | c :: cs, rest => ¬sep <+: c :: (cs ++ rest) ∧ IsFree sep cs rest

variable {sep : List Char}

theorem splitFrom_of_isFree {xs rest : List Char} :
    ∀ {part : List Char} {parts : List (List Char)}, IsFree sep xs rest →
      splitFrom sep 0 part parts (xs ++ rest) =
        splitFrom sep 0 (xs.reverse ++ part) parts rest := by
  induction xs with
  | nil =>
    intro part parts _
    rfl
  | cons c xs ih =>
    intro part parts h
    have hprefix : sep.isPrefixOf (c :: (xs ++ rest)) = false := by
      rw [Bool.eq_false_iff]
      exact fun hp ↦ h.1 (List.isPrefixOf_iff_prefix.mp hp)
    rw [List.cons_append, splitFrom, hprefix, if_neg Bool.false_ne_true, ih h.2, List.reverse_cons,
      List.append_assoc]
    rfl

theorem splitFrom_skip {ys rest part : List Char} {parts : List (List Char)} :
    splitFrom sep ys.length part parts (ys ++ rest) = splitFrom sep 0 part parts rest := by
  induction ys with
  | nil => rfl
  | cons y ys ih => exact ih

theorem splitFrom_acc {cs : List Char} :
    ∀ (skip : Nat) (part : List Char) (parts : List (List Char)),
      splitFrom sep skip part parts cs = parts.reverse ++ splitFrom sep skip part [] cs := by
  induction cs with
  | nil =>
    intro skip part parts
    simp [splitFrom]
  | cons c cs ih =>
    intro skip part parts
    cases skip with
    | succ skip => exact ih skip part parts
    | zero =>
      rw [splitFrom, splitFrom]
      split
      · rw [ih _ _ (part.reverse :: parts), ih _ _ [part.reverse]]
        simp
      · exact ih 0 (c :: part) parts

theorem split_of_isFree {xs : List Char} (h : IsFree sep xs []) : split sep xs = [xs] := by
  have hrun : splitFrom sep 0 [] [] (xs ++ []) = splitFrom sep 0 (xs.reverse ++ []) [] [] :=
    splitFrom_of_isFree h
  rw [List.append_nil, List.append_nil] at hrun
  rw [split, hrun, splitFrom, List.reverse_reverse]
  rfl

/-- **The first part** of a text is what comes before the first separator. -/
theorem split_first {xs rest : List Char} (hsep : sep ≠ []) (h : IsFree sep xs (sep ++ rest)) :
    split sep (xs ++ (sep ++ rest)) = xs :: split sep rest := by
  obtain ⟨c, cs, rfl⟩ := List.exists_cons_of_ne_nil hsep
  have hprefix : (c :: cs).isPrefixOf (c :: (cs ++ rest)) = true :=
    List.isPrefixOf_iff_prefix.mpr (List.prefix_append (c :: cs) rest)
  rw [split, splitFrom_of_isFree h, List.append_nil, List.cons_append, splitFrom, if_pos hprefix,
    List.length_cons, Nat.add_sub_cancel, splitFrom_skip, splitFrom_acc, List.reverse_reverse]
  rfl

theorem IsFree.append_left {c : Char} {cs xs ys rest : List Char} (hxs : ∀ x ∈ xs, x ≠ c)
    (h : IsFree (c :: cs) ys rest) : IsFree (c :: cs) (xs ++ ys) rest := by
  induction xs with
  | nil => exact h
  | cons x xs ih =>
    refine ⟨fun hprefix ↦ ?_, ih fun y hy ↦ hxs y (List.mem_cons_of_mem x hy)⟩
    exact hxs x List.mem_cons_self (List.cons_prefix_cons.mp hprefix).1.symm

/-! ## Lines -/

/-- The text of some lines, each of them ended by a line feed. -/
def lineText (lines : List (List Char)) : List Char :=
  lines.flatMap fun l ↦ l ++ ['\n']

theorem lineText_cons (l : List Char) (lines : List (List Char)) :
    lineText (l :: lines) = l ++ '\n' :: lineText lines := by
  rw [lineText, List.flatMap_cons, List.append_assoc]
  rfl

theorem count_newline_lineText (lines : List (List Char)) :
    (lineText lines).count '\n' = lines.length + lines.flatten.count '\n' := by
  induction lines with
  | nil => rfl
  | cons l lines ih =>
    rw [lineText_cons, List.count_append, List.count_cons_self, ih, List.length_cons,
      List.flatten_cons, List.count_append]
    omega

theorem length_split_newline (cs : List Char) :
    (split ['\n'] cs).length = cs.count '\n' + 1 := by
  have hfrom : ∀ part parts, (splitFrom ['\n'] 0 part parts cs).length =
      parts.length + cs.count '\n' + 1 := by
    induction cs with
    | nil =>
      intro part parts
      rw [splitFrom, List.length_reverse]
      rfl
    | cons c cs ih =>
      intro part parts
      by_cases hc : c = '\n'
      · subst hc
        rw [splitFrom, if_pos (by simp), List.count_cons_self]
        refine (ih _ _).trans ?_
        rw [List.length_cons]
        omega
      · rw [splitFrom, if_neg (by simpa using Ne.symm hc), List.count_cons_of_ne hc]
        exact ih _ _
  rw [split, hfrom, List.length_nil, Nat.zero_add]

/-- **Lines are found again.** -/
theorem split_lineText {lines : List (List Char)} (h : ∀ l ∈ lines, '\n' ∉ l) :
    split ['\n'] (lineText lines) = lines ++ [[]] := by
  induction lines with
  | nil => rfl
  | cons l lines ih =>
    have hfree : IsFree ['\n'] l (['\n'] ++ lineText lines) := by
      have hl : ∀ x ∈ l, x ≠ '\n' := fun x hx hc ↦ h l List.mem_cons_self (hc ▸ hx)
      have hnil : IsFree ['\n'] (l ++ []) (['\n'] ++ lineText lines) :=
        IsFree.append_left hl trivial
      rwa [List.append_nil] at hnil
    have hrest := ih fun l' hl' ↦ h l' (List.mem_cons_of_mem l hl')
    rw [lineText_cons, List.cons_append, ← hrest]
    exact split_first (List.cons_ne_nil _ _) hfree

/-! ## Pages -/

/-- Lines of which one starts another have the same first line. -/
theorem prefix_line {xs ys us vs : List Char} (hxs : '\n' ∉ xs) (hys : '\n' ∉ ys)
    (h : xs ++ '\n' :: us <+: ys ++ '\n' :: vs) : xs = ys ∧ us <+: vs := by
  induction xs generalizing ys with
  | nil =>
    match ys, hys, h with
    | [], _, h => exact ⟨rfl, (List.cons_prefix_cons.mp h).2⟩
    | y :: ys, hys, h =>
      have hy : '\n' = y := (List.cons_prefix_cons.mp h).1
      exact absurd (hy ▸ List.mem_cons_self) hys
  | cons x xs ih =>
    match ys, hys, h with
    | [], _, h =>
      have hx : x = '\n' := (List.cons_prefix_cons.mp h).1
      exact absurd (hx ▸ List.mem_cons_self) hxs
    | y :: ys, hys, h =>
      obtain ⟨rfl, htail⟩ := List.cons_prefix_cons.mp h
      obtain ⟨rfl, hprefix⟩ := ih (fun hc ↦ hxs (List.mem_cons_of_mem x hc))
        (fun hc ↦ hys (List.mem_cons_of_mem x hc)) htail
      exact ⟨rfl, hprefix⟩

/-- Whether lines can make up a page: none of them is empty, and none holds a line feed. -/
def IsPage (lines : List (List Char)) : Prop :=
  ∀ l ∈ lines, l ≠ [] ∧ '\n' ∉ l

/-- What may follow a page so that no line of `bar` and an empty line are found in it: nothing, or
a line feed if the last line of the page is none of `bar`. -/
def Ends (bar : List Char) (lines : List (List Char)) (rest : List Char) : Prop :=
  rest = [] ∨ (∃ cs, rest = '\n' :: cs) ∧ lines.getLast? ≠ some bar

variable {bar rest : List Char} {lines : List (List Char)}

theorem Ends.tail {l : List Char} (h : Ends bar (l :: lines) rest) : Ends bar lines rest := by
  rcases h with h | ⟨hrest, hlast⟩
  · exact Or.inl h
  · refine Or.inr ⟨hrest, fun hc ↦ hlast ?_⟩
    rw [List.getLast?_cons, hc]
    rfl

/-- No page starts with a line feed, not even an empty page at the end of a text. -/
theorem IsPage.not_prefix (hpage : IsPage lines) (hends : rest = [] ∨ lines ≠ []) :
    ¬['\n'] <+: lineText lines ++ rest := by
  intro h
  match lines, hpage, hends with
  | [], _, hends =>
    rw [hends.resolve_right (fun hne ↦ hne rfl)] at h
    exact absurd (List.prefix_nil.mp h) (List.cons_ne_nil _ _)
  | l :: lines, hpage, _ =>
    obtain ⟨hl, hfeed⟩ := hpage l List.mem_cons_self
    obtain ⟨c, cs, rfl⟩ := List.exists_cons_of_ne_nil hl
    rw [lineText_cons] at h
    have hc : '\n' = c := (List.cons_prefix_cons.mp h).1
    exact hfeed (hc ▸ List.mem_cons_self)

theorem IsPage.not_prefix_bar (hpage : IsPage lines) (hends : Ends bar lines rest)
    (hbar : bar ≠ []) (hfeed : '\n' ∉ bar) :
    ¬bar ++ ['\n', '\n'] <+: lineText lines ++ rest := by
  intro h
  match lines, hpage, hends with
  | [], _, hends =>
    obtain ⟨d, ds, rfl⟩ := List.exists_cons_of_ne_nil hbar
    rcases hends with rfl | ⟨⟨cs, rfl⟩, -⟩
    · exact absurd (List.prefix_nil.mp h) (List.cons_ne_nil _ _)
    · have hd : d = '\n' := (List.cons_prefix_cons.mp h).1
      exact hfeed (hd ▸ List.mem_cons_self)
  | l :: lines, hpage, hends =>
    rw [lineText_cons, List.append_assoc] at h
    obtain ⟨rfl, hprefix⟩ := prefix_line hfeed (hpage l List.mem_cons_self).2 h
    refine IsPage.not_prefix (fun l' hl' ↦ hpage l' (List.mem_cons_of_mem _ hl')) ?_ hprefix
    -- A line `bar` is the last line only if nothing follows.
    rcases hends with hrest | ⟨-, hlast⟩
    · exact Or.inl hrest
    · refine Or.inr fun hnil ↦ hlast ?_
      rw [hnil]
      rfl

/-- **No page holds a line between pages**, also where the next one follows. -/
theorem IsPage.isFree (hpage : IsPage lines) (hends : Ends bar lines rest)
    (hbar : bar ≠ []) (hfeed : '\n' ∉ bar) :
    IsFree ('\n' :: (bar ++ ['\n', '\n'])) (lineText lines) rest := by
  induction lines with
  | nil => trivial
  | cons l lines ih =>
    have hrest : IsPage lines := fun l' hl' ↦ hpage l' (List.mem_cons_of_mem l hl')
    rw [lineText_cons]
    refine IsFree.append_left (fun x hx hc ↦ (hpage l List.mem_cons_self).2 (hc ▸ hx)) ⟨?_, ?_⟩
    · intro h
      exact hrest.not_prefix_bar hends.tail hbar hfeed (List.cons_prefix_cons.mp h).2
    · exact ih hrest hends.tail

/-- The line between two pages. -/
def dashes (columns : Nat) : List Char :=
  List.replicate columns bannerChar

theorem banner_eq (columns : Nat) :
    banner columns = '\n' :: (dashes columns ++ ['\n', '\n']) := rfl

/-- **Pages are found again.** -/
theorem split_joinPages {columns : Nat} (hcolumns : 0 < columns) {pages : List (List (List Char))}
    (hne : pages ≠ []) (hpages : ∀ lines ∈ pages, IsPage lines)
    (hlast : ∀ lines ∈ pages.dropLast, lines.getLast? ≠ some (dashes columns)) :
    split (banner columns) (Diagram.joinPages columns (pages.map lineText)) =
      pages.map lineText := by
  have hdashes : dashes columns ≠ [] := by
    rw [dashes, ← List.length_pos_iff, List.length_replicate]
    exact hcolumns
  have hfeed : '\n' ∉ dashes columns := by
    intro h
    exact absurd (List.eq_of_mem_replicate h) (by decide)
  induction pages with
  | nil => exact absurd rfl hne
  | cons lines pages ih =>
    have hpage := hpages lines List.mem_cons_self
    match pages, ih, hpages, hlast with
    | [], _, _, _ =>
      -- Nothing follows the last page, so it may end with a line of dashes.
      apply split_of_isFree
      rw [banner_eq]
      exact hpage.isFree (Or.inl rfl) hdashes hfeed
    | next :: pages, ih, hpages, hlast =>
      have hrest := ih (List.cons_ne_nil _ _) (fun l hl ↦ hpages l (List.mem_cons_of_mem _ hl))
        fun l hl ↦ hlast l (List.mem_cons_of_mem _ hl)
      have hends : Ends (dashes columns) lines
          (banner columns ++ Diagram.joinPages columns ((next :: pages).map lineText)) :=
        Or.inr ⟨⟨_, rfl⟩, hlast lines List.mem_cons_self⟩
      have hfree := hpage.isFree hends hdashes hfeed
      rw [← banner_eq] at hfree
      show split (banner columns) (lineText lines ++ banner columns ++
        Diagram.joinPages columns ((next :: pages).map lineText)) = _
      rw [List.append_assoc]
      exact (split_first (List.cons_ne_nil _ _) hfree).trans (congrArg _ hrest)

end WireDiagram.Split
