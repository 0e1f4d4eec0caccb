import FacetIndex.Json.Basic

set_option autoImplicit false

/-!
# Tokens of a JSON text

A text is cut into tokens one character at a time.  Between two tokens there may be blanks: spaces,
tabs and the two characters that end lines.  Everything that is neither a blank nor a bracket,
colon, comma or quote belongs to a word, and a word has to be a number or one of three names.
-/

namespace FacetIndex.Json

/-- A token. -/
inductive Token where
  /-- An opening square bracket. -/
  | beginArray
  /-- A closing square bracket. -/
  | endArray
  /-- An opening curly bracket. -/
  | beginObject
  /-- A closing curly bracket. -/
  | endObject
  /-- A colon. -/
  | colon
  /-- A comma. -/
  | comma
  /-- A quoted text. -/
  | text (t : Text)
  /-- A word, which is a value of its own. -/
  | word (value : Json)

namespace Token

/-- The characters that may stand between tokens. -/
def isBlank (c : Char) : Bool := c = ' ' || c = '\t' || c = '\n' || c = '\r'

/-- The token that consists of one character. -/
def ofChar? (c : Char) : Option Token :=
  if c = '[' then some .beginArray
  else if c = ']' then some .endArray
  else if c = '\x7b' then some .beginObject
  else if c = '\x7d' then some .endObject
  else if c = ':' then some .colon
  else if c = ',' then some .comma
  else none

/-- The characters of words. -/
def isWord (c : Char) : Bool := !isBlank c && (ofChar? c).isNone && c != '"'

/-- The token of a word. -/
def ofWord? (cs : List Char) : Option Token :=
  if cs = ['n', 'u', 'l', 'l'] then some (.word .null)
  else if cs = ['t', 'r', 'u', 'e'] then some (.word (.bool true))
  else if cs = ['f', 'a', 'l', 's', 'e'] then some (.word (.bool false))
  else (Numeral.ofChars? cs).map fun n => .word (.number n)

end Token

/-- What is read of a quoted text. -/
structure Quoted where
  /-- The characters, backwards, or nothing if half of a pair stood alone. -/
  content : Option (List Char) := some []
  /-- The first half of a pair whose second half has to follow. -/
  half : Option Nat := none

namespace Quoted

/-- Appends a character. -/
def push (q : Quoted) (c : Char) : Quoted :=
  if q.half.isSome then ⟨none, none⟩ else ⟨q.content.map (c :: ·), none⟩

/-- Appends what an escape with a number of 16 bits stands for: a character, or half of a pair. -/
def pushUnit (q : Quoted) (u : Nat) : Quoted :=
  let isFirst := 0xd800 ≤ u && u < 0xdc00
  let isSecond := 0xdc00 ≤ u && u < 0xe000
  match q.half with
  | some first =>
      if isSecond then
        ⟨q.content.map (Char.ofNat (0x10000 + (first - 0xd800) * 0x400 + (u - 0xdc00)) :: ·), none⟩
      else ⟨none, none⟩
  | none =>
      if isFirst then ⟨q.content, some u⟩
      else if isSecond then ⟨none, none⟩
      else ⟨q.content.map (Char.ofNat u :: ·), none⟩

/-- The text at the closing quote. -/
def close (q : Quoted) : Text :=
  if q.half.isSome then none else q.content.map fun cs => String.ofList cs.reverse

end Quoted

/-- What the cutter is in the middle of. -/
inductive Pending where
  /-- Nothing: the next token has not begun. -/
  | nothing
  /-- A word, whose characters are kept backwards. -/
  | word (cs : List Char)
  /-- A quoted text. -/
  | text (q : Quoted)
  /-- An escape inside a quoted text. -/
  | escape (q : Quoted)
  /-- An escape with a number, of which `count` digits with the given value are read. -/
  | unit (q : Quoted) (count value : Nat)

/-- The cutter: the tokens so far, backwards, and what it is in the middle of. -/
structure Cutter where
  /-- The tokens, backwards. -/
  tokens : List Token := []
  /-- What is not a token yet. -/
  pending : Pending := .nothing

namespace Cutter

/-- The character that a short escape stands for. -/
def shortEscape? (c : Char) : Option Char :=
  if c = '"' || c = '\\' || c = '/' then some c
  else if c = 'b' then some '\x08'
  else if c = 'f' then some '\x0c'
  else if c = 'n' then some '\n'
  else if c = 'r' then some '\r'
  else if c = 't' then some '\t'
  else none

/-- Takes a character where a token may begin. -/
def start (tokens : List Token) (c : Char) : Cutter :=
  match Token.ofChar? c with
  | some t => ⟨t :: tokens, .nothing⟩
  | none =>
      if Token.isBlank c then ⟨tokens, .nothing⟩
      else if c = '"' then ⟨tokens, .text {}⟩
      else ⟨tokens, .word [c]⟩

/-- Takes a character. -/
def feed (k : Cutter) (c : Char) : Option Cutter :=
  match k.pending with
  | .nothing => some (start k.tokens c)
  | .word cs =>
      if Token.isWord c then some ⟨k.tokens, .word (c :: cs)⟩
      else (Token.ofWord? cs.reverse).map fun t => start (t :: k.tokens) c
  | .text q =>
      if c = '"' then some ⟨.text q.close :: k.tokens, .nothing⟩
      else if c = '\\' then some ⟨k.tokens, .escape q⟩
      else if c.toNat < 32 then none
      else some ⟨k.tokens, .text (q.push c)⟩
  | .escape q =>
      if c = 'u' then some ⟨k.tokens, .unit q 0 0⟩
      else (shortEscape? c).map fun e => ⟨k.tokens, .text (q.push e)⟩
  | .unit q count value =>
      (Hex.value? c.toNat).map fun d =>
        if count = 3 then ⟨k.tokens, .text (q.pushUnit (16 * value + d))⟩
        else ⟨k.tokens, .unit q (count + 1) (16 * value + d)⟩

/-- The tokens at the end of the text. -/
def finish (k : Cutter) : Option (List Token) :=
  match k.pending with
  | .nothing => some k.tokens.reverse
  | .word cs => (Token.ofWord? cs.reverse).map fun t => (t :: k.tokens).reverse
  | _ => none

end Cutter

/-- The tokens of a text. -/
def tokens (cs : List Char) : Option (List Token) :=
  match cs.foldlM Cutter.feed {} with
  | some k => k.finish
  | none => none

end FacetIndex.Json
