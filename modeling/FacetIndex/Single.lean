set_option autoImplicit false

/-!
# Single-precision numbers

A single-precision number is kept as its 32 bits, so that every one of them, not-a-numbers with
their payloads included, is stored and read back as it is.  Comparison is that of numbers: the two
zeros are the same and a not-a-number is not even the same as itself.
-/

namespace FacetIndex

/-- The bits of a single-precision number: sign, eight bits of exponent, 23 bits of fraction. -/
abbrev Single : Type := UInt32

namespace Single

/-- The bits without the sign. -/
def magnitude (x : Single) : UInt32 := x &&& 0x7fffffff

/-- Not a number: the largest exponent with a fraction that is not zero. -/
def isNaN (x : Single) : Bool := 0x7f800000 < x.magnitude

/-- Positive or negative zero. -/
def isZero (x : Single) : Bool := x.magnitude = 0

/-- Equality of numbers. -/
def same (x y : Single) : Bool :=
  !x.isNaN && !y.isNaN && (x = y || (x.isZero && y.isZero))

end Single

end FacetIndex
