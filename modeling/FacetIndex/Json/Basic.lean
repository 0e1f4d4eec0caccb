import FacetIndex.Json.Numeral
import FacetIndex.Text.Hex

set_option autoImplicit false

/-!
# JSON values and their text

A text may hold half of a surrogate pair that is written as an escape.  Such a text is well formed
but stands for no string; it is kept as `none`, and every reader that needs a string refuses it.

`Json.render` writes a value on one line or, from a given depth on, with two spaces for each level.
-/

namespace FacetIndex

/-- The string that a text stands for. -/
abbrev Text : Type := Option String

/-- A JSON value.  The members of an object keep their order and may share a name. -/
inductive Json where
  /-- The word `null`. -/
  | null
  /-- One of the words `true` and `false`. -/
  | bool (value : Bool)
  /-- A number. -/
  | number (value : Numeral)
  /-- A text. -/
  | text (value : Text)
  /-- A list of values. -/
  | array (items : List Json)
  /-- A list of named values. -/
  | object (members : List (Text × Json))
  deriving Inhabited

namespace Json

/-- A text with a string. -/
def str (s : String) : Json := .text (some s)

/-- A natural number. -/
def nat (n : Nat) : Json := .number (.ofNat n)

/-- An object with the given members. -/
def record (members : List (String × Json)) : Json :=
  .object (members.map fun m => (some m.1, m.2))

/-! ## Writing -/

/-- A character inside quotes.  Quotes, backslashes and control characters are escaped, those that
have a short escape with it. -/
def escape (c : Char) : List Char :=
  if c = '"' then ['\\', '"']
  else if c = '\\' then ['\\', '\\']
  else if c = '\x08' then ['\\', 'b']
  else if c = '\t' then ['\\', 't']
  else if c = '\n' then ['\\', 'n']
  else if c = '\x0c' then ['\\', 'f']
  else if c = '\r' then ['\\', 'r']
  else if c.toNat < 32 then
    ['\\', 'u', '0', '0', Hex.digit (c.toNat / 16), Hex.digit (c.toNat % 16)]
  else [c]

/-- A text in quotes.  A text without a string is written as a lone half of a pair. -/
def quote : Text → List Char
  | some s => '"' :: (s.toList.flatMap escape ++ ['"'])
  | none => "\"\\ud800\"".toList

/-- How values are laid out: on one line, or on lines of their own from a depth on. -/
abbrev Layout : Type := Option Nat

namespace Layout

/-- The layout one level deeper. -/
def deeper (l : Layout) : Layout := l.map (· + 1)

/-- What stands between two items. -/
def gap : Layout → List Char
  | none => []
  | some depth => '\n' :: List.replicate (2 * depth) ' '

/-- What stands between a name and its value. -/
def colon : Layout → List Char
  | none => [':']
  | some _ => [':', ' ']

end Layout

mutual

/-- The text of a value. -/
def render (l : Layout) : Json → List Char
  | .null => ['n', 'u', 'l', 'l']
  | .bool true => ['t', 'r', 'u', 'e']
  | .bool false => ['f', 'a', 'l', 's', 'e']
  | .number n => n.chars
  | .text t => quote t
  | .array [] => ['[', ']']
  | .array (item :: items) =>
      '[' :: (l.deeper.gap ++ render l.deeper item ++ renderItems l items)
  | .object [] => ['\x7b', '\x7d']
  | .object ((name, value) :: members) =>
      '\x7b' :: (l.deeper.gap ++ quote name ++ l.colon ++ render l.deeper value
        ++ renderMembers l members)

/-- The text of the items behind the first one, to the end of the list. -/
def renderItems (l : Layout) : List Json → List Char
  | [] => l.gap ++ [']']
  | item :: items => ',' :: (l.deeper.gap ++ render l.deeper item ++ renderItems l items)

/-- The text of the members behind the first one, to the end of the object. -/
def renderMembers (l : Layout) : List (Text × Json) → List Char
  | [] => l.gap ++ ['\x7d']
  | (name, value) :: members =>
      ',' :: (l.deeper.gap ++ quote name ++ l.colon ++ render l.deeper value
        ++ renderMembers l members)

end

/-- The text of a value on one line. -/
def compact (v : Json) : String := String.ofList (render none v)

/-- The text of a value with each item on a line of its own. -/
def pretty (v : Json) : String := String.ofList (render (some 0) v)

end Json

end FacetIndex
