import FacetIndex.OrdinalSet

set_option autoImplicit false

/-!
# Ordinal sets in machine words

The writer and the reader of ordinal sets once more, now in words of 32 and 64 bits.  Each
subtraction, each sum and each shift has a result only when it stays in the range of its word, and
so have the functions that use them.
-/

namespace FacetIndex.OrdinalSet.Words

/-! ## Arithmetic that stays in range -/

/-- A difference that is not negative. -/
def sub? (a b : UInt32) : Option UInt32 :=
  if b ≤ a then some (a - b) else none

/-- A sum that fits into its word. -/
def add? (a b : UInt64) : Option UInt64 :=
  if a ≤ a + b then some (a + b) else none

/-- A shift down by fewer places than a word has. -/
def shiftDown? (a : UInt32) (places : Nat) : Option UInt32 :=
  if places < 32 then some (a >>> UInt32.ofNat places) else none

/-- A shift up by one group in which no bit is lost. -/
def shiftUp? (a : UInt64) : Option UInt64 :=
  if a <<< 7 >>> 7 = a then some (a <<< 7) else none

/-- The place before a place. -/
def before? : (position : Nat) → Option Nat
  | 0 => none
  | position + 1 => some position

/-! ## Writing -/

/-- The number of groups above the last one, of which there are at most `k`: leading groups that
are zero are passed over. -/
def leading? (delta : UInt32) : (k : Nat) → Option Nat
  | 0 => some 0
  | k + 1 =>
      (shiftDown? delta (7 * (k + 1))).bind fun high =>
        if high = 0 then leading? delta k else some (k + 1)

/-- The group `k` places above the last one and the groups below it. -/
def writeGroups? (delta : UInt32) : (k : Nat) → Option Bytes
  | 0 => some [(delta &&& 0x7f).toUInt8]
  | k + 1 =>
      (shiftDown? delta (7 * (k + 1))).bind fun high =>
        (writeGroups? delta k).map fun rest => (0x80 ||| (high &&& 0x7f).toUInt8) :: rest

/-- A delta in the fewest groups. -/
def writeDelta? (delta : UInt32) : Option Bytes :=
  (leading? delta (maxGroups - 1)).bind (writeGroups? delta)

/-- The distance from the ordinal before, or from zero. -/
def delta? (last : Option UInt32) (word : UInt32) : Option UInt32 :=
  match last with
  | none => some word
  | some previous => sub? word previous

/-- The deltas of ordinals that ascend from `last`. -/
def writeDeltas? : (last : Option UInt32) → List Ordinal → Option Bytes
  | _, [] => some []
  | last, o :: rest =>
      (delta? last o.toUInt32).bind fun delta =>
        (writeDelta? delta).bind fun groups =>
          (writeDeltas? (some o.toUInt32) rest).map fun more => groups ++ more

/-- Sorts a list in place and writes the blob of its distinct ordinals.  A negative ordinal is
refused.  With the outcome comes the list as it is left, sorted and with its repeats. -/
def encode? (ordinals : List Ordinal) : Option (Except Error Bytes × List Ordinal) :=
  let sorted := Ordinal.sort ordinals
  match sorted with
  | [] => some (.ok [], sorted)
  | least :: _ =>
      if least < 0 then some (.error (.argument "ordinals" "min >= 0"), sorted)
      else (writeDeltas? none (Ordinal.dropRepeats sorted)).map fun bytes => (.ok bytes, sorted)

/-! ## Reading -/

/-- Reads one delta, of which `group` groups with the given value are read already. -/
def readDelta? : (position group : Nat) → (value : UInt64) → Bytes →
    Option (Except FormatFault (UInt64 × Nat × Bytes))
  | position, group, _, [] =>
      if group = maxGroups then some (.error (.overlongDelta position))
      else some (.error (.truncatedDelta position group))
  | position, group, value, b :: rest =>
      if group = maxGroups then some (.error (.overlongDelta position))
      else (shiftUp? value).bind fun shifted =>
        let value := shifted ||| (b &&& 0x7f).toUInt64
        if b &&& 0x80 = 0 then some (.ok (value, position + 1, rest))
        else readDelta? (position + 1) (group + 1) value rest

/-- A reader of one blob. -/
structure Decoder where
  /-- What is left to read. -/
  rest : Bytes
  /-- The place of the next byte in the whole blob. -/
  position : Nat := 0
  /-- The ordinal read last. -/
  last : Option UInt64 := none
  /-- Only ordinals are kept. -/
  last_le : ∀ previous, last = some previous → previous ≤ 0x7fffffff := by nofun

namespace Decoder

/-- The sum of the ordinal read last and a delta behind it. -/
def value? (d : Decoder) (delta : UInt64) : Option UInt64 :=
  match d.last with
  | none => some delta
  | some previous => add? previous delta

/-- Reads the next ordinal and gives the reader behind it. -/
def readOrdinal? (d : Decoder) : Option (Except FormatFault (Ordinal × Decoder)) :=
  (readDelta? d.position 0 0 d.rest).bind fun outcome =>
    match outcome with
    | .error fault => some (.error fault)
    | .ok (delta, position, rest) =>
        if d.last.isSome && delta = 0 then
          (before? position).map fun place => .error (.zeroDelta place)
        else
          (d.value? delta).map fun value =>
            if h : value ≤ 0x7fffffff then
              .ok (value.toUInt32.toInt32,
                ⟨rest, position, some value, fun _ heq => Option.some.inj heq ▸ h⟩)
            else .error (.ordinalOverflow value.toNat)

/-- The next ordinal, or the fault that stands in its place, or nothing at the end.  After a fault
the reader is at its end. -/
def next? (d : Decoder) : Option (Option (Except FormatFault Ordinal) × Decoder) :=
  match d.rest with
  | [] => some (none, d)
  | _ :: _ =>
      d.readOrdinal?.map fun outcome =>
        match outcome with
        | .error fault => (some (.error fault), { d with rest := [] })
        | .ok (o, d') => (some (.ok o), d')

end Decoder

theorem length_rest_of_readDelta? {position group : Nat} {value v : UInt64} {bytes rest : Bytes}
    {p : Nat} (h : readDelta? position group value bytes = some (.ok (v, p, rest))) :
    rest.length < bytes.length := by
  induction bytes generalizing position group value with
  | nil =>
    rw [readDelta?] at h
    split at h <;> simp at h
  | cons b bytes ih =>
    rw [readDelta?] at h
    split at h
    · simp at h
    · obtain ⟨shifted, _, h⟩ := Option.bind_eq_some_iff.1 h
      dsimp only at h
      split at h
      · simp only [Option.some.injEq, Except.ok.injEq, Prod.mk.injEq] at h
        rw [← h.2.2, List.length_cons]
        exact Nat.lt_succ_self _
      · exact Nat.lt_succ_of_lt (ih h)

theorem Decoder.length_rest_of_next? {d d' : Decoder} {o : Ordinal}
    (h : d.next? = some (some (.ok o), d')) : d'.rest.length < d.rest.length := by
  unfold next? at h
  split at h
  · simp at h
  · obtain ⟨outcome, hread, h⟩ := Option.map_eq_some_iff.1 h
    cases outcome with
    | error fault => simp at h
    | ok read =>
      simp only [Prod.mk.injEq] at h
      rw [← h.2]
      obtain ⟨outcome, hdelta, hread⟩ := Option.bind_eq_some_iff.1 hread
      match outcome with
      | .error fault => simp at hread
      | .ok (delta, position, rest) =>
        have hlt := length_rest_of_readDelta? hdelta
        dsimp only at hread
        split at hread
        · simp at hread
        · obtain ⟨value, _, hread⟩ := Option.map_eq_some_iff.1 hread
          split at hread
          · simp only [Except.ok.injEq] at hread
            rw [← hread]
            exact hlt
          · simp at hread

/-- Everything a reader still gives, or the first fault. -/
def Decoder.all? (d : Decoder) : Option (Except FormatFault (List Ordinal)) :=
  match _h : d.next? with
  | none => none
  | some (none, _) => some (.ok [])
  | some (some (.error fault), _) => some (.error fault)
  | some (some (.ok o), d') =>
      d'.all?.map fun outcome =>
        match outcome with
        | .error fault => .error fault
        | .ok os => .ok (o :: os)
termination_by d.rest.length
decreasing_by exact length_rest_of_next? _h

/-- The ordinals of a blob, in ascending order. -/
def decode? (bytes : Bytes) : Option (Except FormatFault (List Ordinal)) :=
  Decoder.all? { rest := bytes }

end FacetIndex.OrdinalSet.Words
