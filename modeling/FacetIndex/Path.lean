import FacetIndex.Error

set_option autoImplicit false

/-!
# Encoded paths

A path is a list of components.  It is stored as one string: the components stand one behind the
other with a delimiter between two of them, and inside a component an escape mark stands before
each delimiter and each escape mark.  No character is lost, so the components can be read back.

Reading accepts more than writing makes: an escape mark protects any character behind it.  The one
text without a reading is one that ends in an escape mark that protects nothing.
-/

namespace FacetIndex.Path

/-- Stands between two components. -/
def delimiter : Char := '\x1f'

/-- Stands before a character that is part of a component whatever it is. -/
def escapeMark : Char := '\x1e'

/-- The characters that need protection inside a component. -/
def isReserved (c : Char) : Bool := c = delimiter || c = escapeMark

/-! ## Writing -/

/-- A component with every reserved character protected. -/
def escape : List Char → List Char
  | [] => []
  | c :: cs => if isReserved c then escapeMark :: c :: escape cs else c :: escape cs

/-- The escaped components with a delimiter between two of them. -/
def join : List (List Char) → List Char
  | [] => []
  | [c] => escape c
  | c :: cs => escape c ++ delimiter :: join cs

/-- The stored form of a path.  The empty path has the form of the path of one empty component. -/
def encode (components : List String) : String :=
  String.ofList (join (components.map String.toList))

theorem escape_append (a b : List Char) : escape (a ++ b) = escape a ++ escape b := by
  induction a with
  | nil => rfl
  | cons c cs ih => by_cases h : isReserved c <;> simp [escape, h, ih]

theorem join_append {p q : List (List Char)} (hp : p ≠ []) (hq : q ≠ []) :
    join (p ++ q) = join p ++ delimiter :: join q := by
  fun_induction join p with
  | case1 => exact absurd rfl hp
  | case2 c =>
      cases q with
      | nil => exact absurd rfl hq
      | cons d q => rfl
  | case3 c cs hcs ih =>
      cases cs with
      | nil => exact absurd rfl hcs
      | cons d cs =>
          have := ih (List.cons_ne_nil d cs)
          rw [List.cons_append] at this
          simp [join, this]

/-! ## Reading -/

/-- Cuts a stored path at its delimiters and drops the escape marks.  `current` holds the
component so far, backwards, and `escaped` says that an escape mark stands right before the rest.
The answer also says whether the text ends in an escape mark that protects nothing. -/
def split : (current : List Char) → (escaped : Bool) → List Char → List (List Char) × Bool
  | current, escaped, [] => ([current.reverse], escaped)
  | current, true, c :: cs => split (c :: current) false cs
  | current, false, c :: cs =>
      if c = escapeMark then split current true cs
      else if c = delimiter then
        (current.reverse :: (split [] false cs).1, (split [] false cs).2)
      else split (c :: current) false cs

/-- A component is read back from its escaped form. -/
theorem split_escape (current cs rest : List Char) :
    split current false (escape cs ++ rest) = split (cs.reverse ++ current) false rest := by
  induction cs generalizing current with
  | nil => rfl
  | cons c cs ih =>
      by_cases h : isReserved c
      · simp [escape, h, split, ih]
      · obtain ⟨hd, he⟩ : c ≠ delimiter ∧ c ≠ escapeMark := by simpa [isReserved] using h
        simp [escape, h, split, hd, he, ih]

/-- The components of a stored path, with no regard to an escape mark at its end. -/
def components (encoded : String) : List String :=
  (split [] false encoded.toList).1.map String.ofList

/-- The components of a stored path; a text that ends in an open escape is refused. -/
def decode (encoded : String) : Except FormatFault (List String) :=
  if (split [] false encoded.toList).2 then .error .danglingEscape
  else .ok (components encoded)

end FacetIndex.Path
