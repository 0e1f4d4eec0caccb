import FacetIndex.Bytes
import FacetIndex.Error
import FacetIndex.Ordinal

set_option autoImplicit false

/-!
# Encoded ordinal sets

The categories of a document are stored as one blob: the distinct ordinals in ascending order, each
as its distance from the one before it and the first as itself.  A distance, or delta, is written
in groups of seven bits, the highest group first; every group but the last carries the
continuation bit 128.  There is no length and no end mark: a reader goes on to the end of the blob.

Writing takes the fewest groups.  Reading accepts leading zero groups, up to five groups in all,
and refuses a zero delta behind the first and a sum above the largest ordinal.
-/

namespace FacetIndex.OrdinalSet

/-- The most groups that one delta takes. -/
def maxGroups : Nat := 5

/-! ## Writing -/

/-- The lowest `k` groups of `n`, each with the continuation bit. -/
def writeLeading : (k n : Nat) → Bytes
  | 0, _ => []
  | k + 1, n => writeLeading k (n / 128) ++ [UInt8.ofNat (128 + n % 128)]

/-- The number of groups that `n` needs before its last one: a group more for every seven bits. -/
def leadingGroups (n : Nat) : Nat :=
  if n < 0x80 then 0
  else if n < 0x4000 then 1
  else if n < 0x200000 then 2
  else if n < 0x10000000 then 3
  else 4

/-- A delta in the fewest groups. -/
def writeDelta (n : Nat) : Bytes :=
  writeLeading (leadingGroups n) (n / 128) ++ [UInt8.ofNat (n % 128)]

theorem length_writeLeading (k n : Nat) : (writeLeading k n).length = k := by
  induction k generalizing n with
  | zero => rfl
  | succ k ih => simp [writeLeading, ih]

theorem length_writeDelta (n : Nat) : (writeDelta n).length = leadingGroups n + 1 := by
  simp [writeDelta, length_writeLeading]

theorem length_writeDelta_le (n : Nat) : (writeDelta n).length ≤ maxGroups := by
  rw [length_writeDelta, leadingGroups, maxGroups]
  repeat' split
  all_goals omega

/-- The deltas of ascending numbers that follow `previous`. -/
def writeDeltas : (previous : Nat) → List Nat → Bytes
  | _, [] => []
  | previous, n :: rest => writeDelta (n - previous) ++ writeDeltas n rest

/-- The blob of the distinct ordinals of a list.  A negative ordinal is refused. -/
def encode (ordinals : List Ordinal) : Except Error Bytes :=
  match Ordinal.sort ordinals with
  | [] => .ok []
  | least :: rest =>
      if least < 0 then .error (.argument "ordinals" "min >= 0")
      else .ok (writeDeltas 0 ((Ordinal.dropRepeats (least :: rest)).map (·.toInt.toNat)))

/-! ## Reading -/

/-- Reads one delta, of which `group` groups with the given value are read already.  `position` is
the place of the next byte in the whole blob; the answer holds the place behind the delta. -/
def readDelta : (position group value : Nat) → Bytes → Except FormatFault (Nat × Nat × Bytes)
  | position, group, _, [] =>
      if group = maxGroups then .error (.overlongDelta position)
      else .error (.truncatedDelta position group)
  | position, group, value, b :: rest =>
      if group = maxGroups then .error (.overlongDelta position)
      else if b < 128 then .ok (128 * value + b.toNat, position + 1, rest)
      else readDelta (position + 1) (group + 1) (128 * value + b.toNat % 128) rest

/-- A reader of one blob. -/
structure Decoder where
  /-- What is left to read. -/
  rest : Bytes
  /-- The place of the next byte in the whole blob. -/
  position : Nat := 0
  /-- The ordinal read last. -/
  last : Option Nat := none
  deriving DecidableEq, Repr, Inhabited

namespace Decoder

/-- Reads the next ordinal and gives the reader behind it. -/
def readOrdinal (d : Decoder) : Except FormatFault (Nat × Decoder) :=
  match readDelta d.position 0 0 d.rest with
  | .error fault => .error fault
  | .ok (delta, position, rest) =>
      if d.last.isSome && delta = 0 then .error (.zeroDelta (position - 1))
      else
        let value := d.last.getD 0 + delta
        if Ordinal.largest < value then .error (.ordinalOverflow value)
        else .ok (value, ⟨rest, position, some value⟩)

/-- The next ordinal, or the fault that stands in its place, or nothing at the end.  After a fault
the reader is at its end. -/
def next (d : Decoder) : Option (Except FormatFault Ordinal) × Decoder :=
  match d.rest with
  | [] => (none, d)
  | _ :: _ =>
      match d.readOrdinal with
      | .error fault => (some (.error fault), { d with rest := [] })
      | .ok (value, d') => (some (.ok (Int32.ofNat value)), d')

end Decoder

theorem length_rest_of_readDelta {position group value : Nat} {bytes rest : Bytes} {v p : Nat}
    (h : readDelta position group value bytes = .ok (v, p, rest)) : rest.length < bytes.length := by
  induction bytes generalizing position group value with
  | nil => rw [readDelta] at h; split at h <;> simp at h
  | cons b bytes ih =>
      rw [readDelta] at h
      split at h
      · simp at h
      · split at h
        · simp only [Except.ok.injEq, Prod.mk.injEq] at h
          simp [← h.2.2]
        · have := ih h
          simp only [List.length_cons]
          omega

theorem Decoder.length_rest_of_next {d d' : Decoder} {o : Ordinal}
    (h : d.next = (some (.ok o), d')) : d'.rest.length < d.rest.length := by
  unfold next at h
  split at h
  · simp at h
  · rename_i b bs hrest
    split at h
    · simp at h
    · rename_i value d'' hread
      simp only [Prod.mk.injEq] at h
      rw [← h.2]
      unfold readOrdinal at hread
      split at hread
      · simp at hread
      · rename_i delta position rest hdelta
        have hlt := length_rest_of_readDelta hdelta
        split at hread
        · simp at hread
        · dsimp only at hread
          split at hread
          · simp at hread
          · simp only [Except.ok.injEq, Prod.mk.injEq] at hread
            rw [← hread.2]
            exact hlt

/-- Everything a reader still gives, or the first fault. -/
def Decoder.all (d : Decoder) : Except FormatFault (List Ordinal) :=
  match _h : d.next with
  | (none, _) => .ok []
  | (some (.error fault), _) => .error fault
  | (some (.ok o), d') =>
      match d'.all with
      | .error fault => .error fault
      | .ok os => .ok (o :: os)
termination_by d.rest.length
decreasing_by exact length_rest_of_next _h

/-- The ordinals of a blob, in ascending order. -/
def decode (bytes : Bytes) : Except FormatFault (List Ordinal) := Decoder.all ⟨bytes, 0, none⟩

end FacetIndex.OrdinalSet
