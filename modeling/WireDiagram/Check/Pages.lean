import WireDiagram.Page
import WireDiagram.Text.Split
import WireDiagram.Value.Arithmetic

/-!
# Checking pages

A text is checked as a reader sees it: it is split at the lines between pages, every page must
consist of complete rows, as many as the wires need, every row that goes on must say so, and no row
may be wider than the budget. The labels before the first page and the marks at the ends of rows are
not counted.
-/

namespace WireDiagram.PageCheck

/-- The width of the labels before some wires. -/
def labelWidth (wires : Nat) : Except Fault Nat :=
  match ((List.range wires).map fun w ↦ (wireLabel w).length).max? with
  | some width => .ok width
  | none => .error .emptyExtremum

/-- The number of columns that a budget stands for. There must be room for the line between pages; a
number below zero stands for zero. -/
def columnsOf (budget : Value) : Except Fault Int := do
  let n ← budget.toInt
  Room.check maxColumns n
  .ok n

/-- The pages of a text. A text that is too short for a line between pages is a single page. -/
def pagesOf (columns : Int) (text : List Char) : List (List Char) :=
  if text.length < columns then [text] else Split.split (banner columns) text

theorem pagesOf_eq_split (columns : Int) (text : List Char) :
    pagesOf columns text = Split.split (banner columns) text := by
  unfold pagesOf
  split
  · rw [Split.split_of_length_lt]
    simp only [banner, List.length_append, List.length_cons, List.length_replicate]
    omega
  · rfl

/-- The rows of a page, which must be complete and as many as `height`. -/
def rowsOf (height page : Nat) (text : List Char) : Except Fault (List (List Char)) :=
  let lines := Split.split ['\n'] text
  let rows := lines.dropLast
  if lines.getLast? ≠ some [] then .error (.unfinishedPage page)
  else if rows.length ≠ height then .error (.wrongRowCount page rows.length height)
  else .ok rows

/-- A row that goes on, without its mark. -/
def unmark (page : Nat) (row content : List Char) : Except Fault (List Char) :=
  if content.getLast? = some continuationMark then .ok content.dropLast
  else .error (.unmarkedRow (String.ofList row) page)

/-- Check one row of a page. -/
def checkRow (budget : Value) (columns : Int) (labelWidth page : Nat) (goesOn : Bool)
    (row : List Char) : Except Fault Unit := do
  let unlabelled := if page = 0 then row.drop labelWidth else row
  let content ← if goesOn then unmark page row unlabelled else .ok unlabelled
  if (content.length : Int) > columns then
    .error (.wideRow (String.ofList row) page content.length budget)
  else .ok ()

/-- Check the pages from number `page` on. -/
def checkFrom (budget : Value) (columns : Int) (labelWidth height : Nat) :
    Nat → List (List Char) → Except Fault Unit
  | _, [] => .ok ()
  | page, text :: pages => do
    let rows ← rowsOf height page text
    rows.forM (checkRow budget columns labelWidth page (!pages.isEmpty))
    checkFrom budget columns labelWidth height (page + 1) pages

/-- Check the text of a diagram of some wires against a budget. Both numbers are still to be
checked: the wires are first of all a number, then comes the budget, and only then must the wires be
an integer. -/
def checkPages (text : List Char) (wires budget : Value) : Except Fault Unit :=
  if !wires.isNumber then .error .wrongType
  else do
    let columns ← columnsOf budget
    let count := (← wires.toInt).toNat
    let labelWidth ← labelWidth count
    checkFrom budget columns labelWidth (2 * count + 1) 0 (pagesOf columns text)

end WireDiagram.PageCheck
