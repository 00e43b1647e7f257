import WireDiagram.Text.Printable

/-!
# Quoted text

Text inside a message stands between quotes, single ones unless the text holds a single quote and no
double one. A backslash and the quote in use are escaped by a backslash, line feeds, carriage
returns and tabs by their letters, and any other unprintable character by its code point in
hexadecimal.
-/

namespace WireDiagram.Quoted

open Printable

/-! ## Code points -/

/-- The hexadecimal digits of `n`, lower case, filled with zeros to `places`. -/
def hex (places n : Nat) : List Char :=
  let digits := Nat.toDigits 16 n
  List.replicate (places - digits.length) '0' ++ digits

/-- The escape of an unprintable character: two, four or eight digits, the fewest that fit. -/
def codePoint (c : Char) : List Char :=
  if c.toNat < 0x100 then '\\' :: 'x' :: hex 2 c.toNat
  else if c.toNat < 0x10000 then '\\' :: 'u' :: hex 4 c.toNat
  else '\\' :: 'U' :: hex 8 c.toNat

/-! ## Quoting -/

/-- How one character is written between the quotes `quote`. -/
def escape (quote c : Char) : List Char :=
  if c == quote || c == '\\' then ['\\', c]
  else if c == '\n' then ['\\', 'n']
  else if c == '\r' then ['\\', 'r']
  else if c == '\t' then ['\\', 't']
  else if isPrintable c then [c]
  else codePoint c

/-- The single quote. -/
def single : Char := Char.ofNat 0x27

/-- The double quote. -/
def double : Char := Char.ofNat 0x22

/-- The quote that a text is put between. -/
def quoteFor (cs : List Char) : Char :=
  if cs.contains single && !cs.contains double then double else single

/-- The text between quotes, with its escapes. -/
def quote (s : String) : String :=
  let q := quoteFor s.toList
  String.ofList (q :: s.toList.flatMap (escape q) ++ [q])

end WireDiagram.Quoted
