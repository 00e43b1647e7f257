/-!
# Blank characters

The characters that may surround a numeral: the ASCII blanks and the characters with the Unicode
property White_Space beyond ASCII. The four ASCII information separators do not count.
-/

namespace WireDiagram.Blank

/-- The code points above ASCII with the property White_Space, outside the runs that `isBlank` tests
by their ends. -/
def isolated : List Nat :=
  [0x85, 0xA0, 0x1680, 0x2028, 0x2029, 0x202F, 0x205F, 0x3000]

/-- Whether a character is blank. -/
def isBlank (c : Char) : Bool :=
  let n := c.toNat
  n == 0x20 || (0x09 ≤ n && n ≤ 0x0D) || (0x2000 ≤ n && n ≤ 0x200A) || isolated.contains n

/-- The text without the blanks at its two ends. -/
def strip (cs : List Char) : List Char :=
  ((cs.dropWhile isBlank).reverse.dropWhile isBlank).reverse

end WireDiagram.Blank
