import FacetIndex.Path

set_option autoImplicit false

/-!
# Printable terms

The delimiter and the escape mark of encoded paths cannot be seen or typed.  On a terminal they are
shown as a backslash followed by `x1f` or `x1e`, and what is typed that way is read as the
character.  A backslash itself is not protected.
-/

namespace FacetIndex.Printable

/-- A character as it is shown. -/
def shown (c : Char) : List Char :=
  if c = Path.delimiter then ['\\', 'x', '1', 'f']
  else if c = Path.escapeMark then ['\\', 'x', '1', 'e']
  else [c]

/-- A term as it is shown. -/
def encode (term : String) : String := String.ofList (term.toList.flatMap shown)

/-- Replaces each sequence that ends in the digit `last` by a character, from left to right. -/
def replace (last mark : Char) : List Char → List Char
  | [] => []
  | '\\' :: 'x' :: '1' :: d :: rest =>
      if d = last then mark :: replace last mark rest
      else '\\' :: replace last mark ('x' :: '1' :: d :: rest)
  | c :: rest => c :: replace last mark rest

/-- The term that is typed.  Delimiters are read before escape marks. -/
def decode (typed : String) : String :=
  String.ofList
    (replace 'e' Path.escapeMark (replace 'f' Path.delimiter typed.toList))

end FacetIndex.Printable
