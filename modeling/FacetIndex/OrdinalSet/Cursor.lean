import FacetIndex.OrdinalSet

set_option autoImplicit false

/-!
# Reading an ordinal set step by step

A cursor stands at a place in a blob and is asked for one ordinal after the other.  It is marked as
failed before it reads, and the mark is taken away once an ordinal was read.  So after a fault it
has nothing more to say, whatever stands behind the fault.
-/

namespace FacetIndex.OrdinalSet

/-- A place in a blob from which ordinals are read one by one. -/
structure Cursor where
  /-- The whole blob. -/
  bytes : Bytes
  /-- The place of the next byte. -/
  position : Nat := 0
  /-- The ordinal read last. -/
  last : Option Nat := none
  /-- A fault was found. -/
  failed : Bool := false
  deriving DecidableEq, Repr, Inhabited

namespace Cursor

/-- The reader of what stands in front of the cursor. -/
def reader (c : Cursor) : Decoder := ⟨c.bytes.drop c.position, c.position, c.last⟩

/-- The next ordinal, or the fault that stands in its place, or nothing: at the end of the blob, and
whenever a fault was found before. -/
def next (c : Cursor) : Option (Except FormatFault Ordinal) × Cursor :=
  if c.failed || c.bytes.length ≤ c.position then (none, c)
  else
    let marked := { c with failed := true }
    match marked.reader.readOrdinal with
    -- How far the fault reaches does not matter: a marked cursor reads no more.
    | .error fault => (some (.error fault), marked)
    | .ok (value, r) =>
        (some (.ok (Int32.ofNat value)),
          { marked with position := r.position, last := r.last, failed := false })

/-- What a cursor says when it is asked so many times. -/
def answers (c : Cursor) : (count : Nat) → List (Option (Except FormatFault Ordinal))
  | 0 => []
  | count + 1 => c.next.1 :: c.next.2.answers count

end Cursor

end FacetIndex.OrdinalSet
