import FacetIndex.Bytes

set_option autoImplicit false

/-!
# Hexadecimal text

Bytes are shown as two lowercase digits each.  Reading is lenient: blanks of ASCII are dropped
wherever they stand, letters may be of either case, and the first digit of a byte may be replaced by
a plus sign, which stands for a zero.
-/

namespace FacetIndex.Hex

/-- The digit of a number below 16. -/
def digit (n : Nat) : Char := if n < 10 then Char.ofNat (48 + n) else Char.ofNat (87 + n)

/-- The number that a digit, given by its code, stands for. -/
def value? (code : Nat) : Option Nat :=
  if 48 ≤ code && code ≤ 57 then some (code - 48)
  else if 97 ≤ code && code ≤ 102 then some (code - 87)
  else if 65 ≤ code && code ≤ 70 then some (code - 55)
  else none

/-- The digits of bytes. -/
def chars (bytes : Bytes) : List Char :=
  bytes.flatMap fun b => [digit (b.toNat / 16), digit (b.toNat % 16)]

/-- The hexadecimal text of bytes. -/
def encode (bytes : Bytes) : String := String.ofList (chars bytes)

/-- Why a text is not read. -/
inductive Fault where
  /-- The last byte has one digit. -/
  | oddLength
  /-- A character is no digit. -/
  | badDigit
  /-- The two places of a byte hold part of a character that begins at the given one of them. -/
  | splitCharacter (place : Nat)
  deriving DecidableEq, Repr, Inhabited

/-- The wording of a fault. -/
def Fault.message : Fault → String
  | .oddLength => "Odd number of hex digits"
  | .badDigit => "invalid digit found in string"
  | .splitCharacter place => s!"incomplete utf-8 byte sequence from index {place}"

/-- Space, tab, line feed, form feed and carriage return. -/
def isBlank (b : UInt8) : Bool := b = 32 || b = 9 || b = 10 || b = 12 || b = 13

/-- The byte that two places stand for.  A byte from 224 on begins a character of three or more
bytes, of which two places hold only a part. -/
def readPair (a b : UInt8) : Except Fault UInt8 :=
  if 224 ≤ a then .error (.splitCharacter 0)
  else if a < 128 && 128 ≤ b then .error (.splitCharacter 1)
  else
    match if a = 43 then some 0 else value? a.toNat, value? b.toNat with
    | some high, some low => .ok (UInt8.ofNat (16 * high + low))
    | _, _ => .error .badDigit

/-- Reads two places at a time. -/
def readPairs : Bytes → Except Fault Bytes
  | a :: b :: rest =>
      match readPair a b with
      | .error fault => .error fault
      | .ok byte =>
          match readPairs rest with
          | .error fault => .error fault
          | .ok bytes => .ok (byte :: bytes)
  | _ => .ok []

/-- The bytes that a text shows.  An odd number of places is reported before anything else. -/
def decode (text : String) : Except Fault Bytes :=
  let places := text.toUTF8.data.toList.filter (!isBlank ·)
  if places.length % 2 = 1 then .error .oddLength else readPairs places

end FacetIndex.Hex
