import FacetIndex.Bytes

set_option autoImplicit false

/-!
# Lines of text

A line ends at a line feed; a carriage return right before it is part of the end.  What stands
behind the last line feed is a line too unless it is empty.  A line is text if its bytes are UTF-8.
-/

namespace FacetIndex.Lines

/-- The lines so far and the bytes of the line that is not at its end, all backwards. -/
structure Cut where
  /-- The finished lines. -/
  lines : List Bytes := []
  /-- The bytes of the next line. -/
  current : Bytes := []

namespace Cut

/-- Takes a byte. -/
def feed (k : Cut) (b : UInt8) : Cut :=
  if b = 10 then
    match k.current with
    | 13 :: before => ⟨before.reverse :: k.lines, []⟩
    | current => ⟨current.reverse :: k.lines, []⟩
  else ⟨k.lines, b :: k.current⟩

/-- The lines at the end of the bytes. -/
def finish (k : Cut) : List Bytes :=
  match k.current with
  | [] => k.lines.reverse
  | current => (current.reverse :: k.lines).reverse

end Cut

/-- The lines of a file, without their ends. -/
def ofBytes (bytes : Bytes) : List Bytes := (bytes.foldl Cut.feed {}).finish

/-- The text of bytes that are UTF-8. -/
def text? (bytes : Bytes) : Option String := String.fromUTF8? ⟨bytes.toArray⟩

/-- The characters with the Unicode property `White_Space`. -/
def isBlank (c : Char) : Bool :=
  (9 ≤ c.toNat && c.toNat ≤ 13) || (0x2000 ≤ c.toNat && c.toNat ≤ 0x200a)
    || [0x20, 0x85, 0xa0, 0x1680, 0x2028, 0x2029, 0x202f, 0x205f, 0x3000].contains c.toNat

/-- A line that holds nothing to read. -/
def isBlankLine (line : String) : Bool := line.toList.all isBlank

end FacetIndex.Lines
