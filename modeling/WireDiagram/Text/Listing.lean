/-!
# Listings

The ways in which messages list things, whose own texts are given. Two of them have a form of their
own for a listing that could be taken for something else: a parenthesised single member, and empty
braces.
-/

namespace WireDiagram.Listing

/-- The members separated by commas. -/
def commas (texts : List String) : String :=
  ", ".intercalate texts

/-- A sequence of fixed length; a single member is followed by a comma. -/
def parenthesised : List String → String
  | [t] => "(" ++ t ++ ",)"
  | ts => "(" ++ commas ts ++ ")"

/-- A list. -/
def bracketed (texts : List String) : String :=
  "[" ++ commas texts ++ "]"

/-- A set. -/
def braced (texts : List String) : String :=
  if texts.isEmpty then "set()" else "\x7b" ++ commas texts ++ "\x7d"

end WireDiagram.Listing
