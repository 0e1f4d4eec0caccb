import FacetIndex.Single

set_option autoImplicit false

/-!
# Numerals

A number of a JSON text is kept as it is written: sign, digits, fraction and exponent.  What it is
worth depends on who reads it.  An integer is read exactly and has neither fraction nor exponent.
A single-precision number is read in two ways: an integer of at most 64 bits is rounded once, and
every other numeral is read as a double-precision number first.
-/

namespace FacetIndex

/-- A decimal digit. -/
abbrev Digit : Type := Fin 10

namespace Digit

/-- The character of a digit. -/
def char (d : Digit) : Char := Char.ofNat (48 + d.val)

/-- The digit that a character stands for. -/
def ofChar? (c : Char) : Option Digit :=
  if h : 48 ≤ c.toNat ∧ c.toNat ≤ 57 then some ⟨c.toNat - 48, by omega⟩ else none

/-- The digits at the start of a text, and the rest. -/
def span : List Char → List Digit × List Char
  | [] => ([], [])
  | c :: cs =>
      match ofChar? c with
      | none => ([], c :: cs)
      | some d => (d :: (span cs).1, (span cs).2)

/-- The number that digits stand for, behind a number read before them. -/
def value (ds : List Digit) : Nat := ds.foldl (fun n d => 10 * n + d.val) 0

end Digit

/-- The exponent of a numeral. -/
structure Exponent where
  /-- The exponent is negative. -/
  negative : Bool
  /-- Its digits, of which there is at least one. -/
  digits : List Digit
  deriving DecidableEq, Repr, Inhabited

/-- A number as it is written. -/
structure Numeral where
  /-- There is a minus sign. -/
  negative : Bool := false
  /-- The digits before the point, of which there is at least one. -/
  whole : List Digit
  /-- The digits behind the point, or nothing where there is no point. -/
  fraction : List Digit := []
  /-- The exponent. -/
  exponent : Option Exponent := none
  deriving DecidableEq, Repr, Inhabited

namespace Numeral

/-- The numeral of a natural number. -/
def ofNat (n : Nat) : Numeral := { whole := (Nat.toDigits 10 n).filterMap Digit.ofChar? }

/-! ## Reading and writing -/

/-- Reads the exponent, which ends the numeral. -/
def readExponent : List Char → Option (Option Exponent)
  | [] => some none
  | mark :: cs =>
      if mark = 'e' || mark = 'E' then
        let (negative, cs) := match cs with
          | '-' :: cs => (true, cs)
          | '+' :: cs => (false, cs)
          | cs => (false, cs)
        match Digit.span cs with
        | (d :: ds, []) => some (some ⟨negative, d :: ds⟩)
        | _ => none
      else none

/-- Reads what stands behind the digits before the point. -/
def readFraction : List Char → Option (List Digit × Option Exponent)
  | '.' :: cs =>
      match Digit.span cs with
      | ([], _) => none
      | (d :: ds, cs) => (readExponent cs).map (d :: ds, ·)
  | cs => (readExponent cs).map ([], ·)

/-- Reads a numeral.  A zero is not followed by further digits before the point. -/
def ofChars? (cs : List Char) : Option Numeral :=
  let (negative, cs) := match cs with
    | '-' :: cs => (true, cs)
    | cs => (false, cs)
  match Digit.span cs with
  | ([], _) => none
  | (d :: ds, cs) =>
      if d = 0 && !ds.isEmpty then none
      else (readFraction cs).map fun (fraction, exponent) => ⟨negative, d :: ds, fraction, exponent⟩

/-- Writes a numeral. -/
def chars (n : Numeral) : List Char :=
  (if n.negative then ['-'] else []) ++ n.whole.map Digit.char
    ++ (if n.fraction.isEmpty then [] else '.' :: n.fraction.map Digit.char)
    ++ (match n.exponent with
        | none => []
        | some e => 'e' :: (if e.negative then ['-'] else []) ++ e.digits.map Digit.char)

/-! ## Worth -/

/-- The numeral is written as an integer. -/
def isInteger (n : Numeral) : Bool := n.fraction.isEmpty && n.exponent.isNone

/-- The 32-bit integer that is written.  A zero with a minus sign is none. -/
def toInt32? (n : Numeral) : Option Int32 :=
  let size := Digit.value n.whole
  if !n.isInteger then none
  else if n.negative then
    if 0 < size && size ≤ 0x80000000 then some (Int32.ofInt (-size)) else none
  else if size < 0x80000000 then some (Int32.ofNat size)
  else none

/-- The least number that 64 bits do not hold. -/
def wordLimit : Nat := 0x10000000000000000

/-- The size of the least integer of 64 bits. -/
def signedLimit : Nat := 0x8000000000000000

/-- The digits before the point as a number of 64 bits.  From the first digit that does not fit,
digits are dropped and counted as powers of ten. -/
def takeWhole : (significand : Nat) → List Digit → Nat × Nat
  | s, [] => (s, 0)
  | s, d :: ds =>
      if 10 * s + d.val < wordLimit then takeWhole (10 * s + d.val) ds else (s, (d :: ds).length)

/-- Appends the digits behind the point; from the first one that does not fit they are dropped. -/
def takeFraction : (significand : Nat) → (exponent : Int) → List Digit → Nat × Int
  | s, e, [] => (s, e)
  | s, e, d :: ds =>
      if 10 * s + d.val < wordLimit then takeFraction (10 * s + d.val) (e - 1) ds else (s, e)

/-- The largest exponent that is looked at. -/
def largestExponent : Nat := 0x7fffffff

/-- A power of ten in double precision. -/
def powerOfTen (n : Nat) : Float := Float.ofScientific 1 false n

/-- Divides by a power of ten, by at most `10 ^ 308` at a time. -/
def shrink (x : Float) (n : Nat) : Float :=
  if n ≤ 308 then x / powerOfTen n
  else if x == 0 then x
  else shrink (x / powerOfTen 308) (n - 308)
termination_by n

/-- Multiplies by a power of ten; what is too large for double precision is refused. -/
def grow (x : Float) (n : Nat) : Option Float :=
  if n ≤ 308 then
    let y := x * powerOfTen n
    if y.isInf then none else some y
  else if x == 0 then some x
  else none

/-- The size of a numeral in double precision. -/
def toDouble? (n : Numeral) : Option Float :=
  let (s, dropped) := takeWhole 0 n.whole
  let (s, e) := takeFraction s dropped n.fraction
  let x := (UInt64.ofNat s).toFloat
  let written : Int := match n.exponent with
    | none => 0
    | some w => if w.negative then -(Digit.value w.digits : Int) else Digit.value w.digits
  if written.natAbs ≤ largestExponent then
    let e := e + written
    if 0 ≤ e then grow x e.toNat else some (shrink x e.natAbs)
  else if s = 0 || written < 0 then some 0
  else none

/-- The single-precision number that is written; what is too large for double precision is refused,
and what is only too large for single precision is infinite. -/
def toSingle? (n : Numeral) : Option Single :=
  let size := Digit.value n.whole
  let fits := if n.negative then 0 < size && size ≤ signedLimit else size < wordLimit
  if n.isInteger && fits then
    let x := (UInt64.ofNat size).toFloat32
    some (if n.negative then -x else x).toBits
  else n.toDouble?.map fun x => (if n.negative then -x else x).toFloat32.toBits

end Numeral

end FacetIndex
