import WireDiagram.Text.Blank
import WireDiagram.Text.DecimalDigit

/-!
# Reading numerals

A numeral is a sign, if any, followed by the word for an infinity or for no number, or by decimal
digits with at most one point and at most one exponent. Digits of all scripts count, an underscore
may stand between two digits, and blanks may surround the whole.

## The value

The digits are one integer and the point and the exponent one power of ten; the double nearest to
their product is the value. Products far outside the range of doubles are settled by the number of
digits, so that no huge power is ever computed.
-/

namespace WireDiagram.Numeral

/-! ## Preparing the characters -/

/-- A digit of any script as an ASCII digit; other characters stay. -/
def toAscii (c : Char) : Char :=
  match DecimalDigit.value? c with
  | some d => Nat.digitChar d
  | none => c

/-- The characters without their underscores, if each stands between two digits. -/
def dropUnderscores? (previous : Char) : List Char → Option (List Char)
  | [] => if previous == '_' then none else some []
  | c :: cs =>
    if c == '_' then
      if previous.isDigit then dropUnderscores? '_' cs else none
    else if previous == '_' && !c.isDigit then none
    else (dropUnderscores? c cs).map (c :: ·)

/-- The characters of a text without blanks at its ends and without underscores, every digit an
ASCII digit. -/
def prepare? (s : String) : Option (List Char) :=
  dropUnderscores? ' ' ((Blank.strip s.toList).map toAscii)

/-! ## The grammar -/

/-- The integer that a list of ASCII digits writes. -/
def ofDigits (cs : List Char) : Nat :=
  cs.foldl (fun n c ↦ 10 * n + (c.toNat - 0x30)) 0

/-- The sign at the start, and the rest. -/
def sign : List Char → Bool × List Char
  | '-' :: cs => (true, cs)
  | '+' :: cs => (false, cs)
  | cs => (false, cs)

/-- The fraction digits after a point, if there is one, and the rest. -/
def fraction : List Char → List Char × List Char
  | '.' :: cs => (cs.takeWhile Char.isDigit, cs.dropWhile Char.isDigit)
  | cs => ([], cs)

/-- The exponent, which must fill the rest; none at all means zero. -/
def exponent? : List Char → Option Int
  | [] => some 0
  | c :: cs =>
    if c == 'e' || c == 'E' then
      let (negative, digits) := sign cs
      if digits.isEmpty || !digits.all Char.isDigit then none
      else some (if negative then -(ofDigits digits : Int) else ofDigits digits)
    else none

/-- The double nearest to `value · 10 ^ power`, where `value` has at most `count` digits. -/
def scaled (value count : Nat) (power : Int) : Float :=
  if value = 0 then 0
  else if power + count < -400 then 0
  else if power > 400 then 1 / 0
  else Float.ofScientific value (power < 0) power.natAbs

/-- A number without its sign: digits, fraction and exponent, or one of the words. -/
def unsigned? (cs : List Char) : Option Float :=
  let word := String.ofList (cs.map Char.toLower)
  if word == "inf" || word == "infinity" then some (1 / 0)
  else if word == "nan" then some (0 / 0)
  else
    let whole := cs.takeWhile Char.isDigit
    let (part, rest) := fraction (cs.dropWhile Char.isDigit)
    if whole.isEmpty && part.isEmpty then none
    else (exponent? rest).map fun e ↦
      scaled (ofDigits (whole ++ part)) (whole.length + part.length) (e - part.length)

/-- The double that a text writes, if it is a numeral. -/
def read? (s : String) : Option Float :=
  (prepare? s).bind fun cs ↦
    let (negative, digits) := sign cs
    (unsigned? digits).map fun x ↦ if negative then -x else x

/-! ## Integers -/

/-- The numeral of an integer has no more digits than this, leading zeros counted. -/
def maxDigits : Nat := 4300

/-- The integer that a text writes, if it is a numeral with neither point nor exponent. -/
def readInt? (s : String) : Option Int :=
  (prepare? s).bind fun cs ↦
    let (negative, digits) := sign cs
    if digits.isEmpty || !digits.all Char.isDigit || maxDigits < digits.length then none
    else some (if negative then -(ofDigits digits : Int) else ofDigits digits)

end WireDiagram.Numeral
