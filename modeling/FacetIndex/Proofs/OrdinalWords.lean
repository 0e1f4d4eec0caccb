/-
  Proofs/OrdinalWords.lean --- words and numbers.

  WHAT THIS FILE IS FOR.  `OrdinalSet` reads and writes with natural numbers, where
  nothing overflows.  `OrdinalSet.Words` does the same with words of 32 bits, and
  each of its operations fails when it leaves the range.  This file shows that none
  of them ever fails, and that the two agree.

  WHAT IT RESTS ON.  For the writer, on the order of the ordinals: they are sorted,
  so that no distance is negative.  For the reader, on two bounds: a delta has five
  groups at most, and the ordinal before it was checked.

  WHAT IS PROVED.

      OrdinalSet.Words.encode?_eq    the writer on words is the one on numbers
      OrdinalSet.Words.decode?_eq    so is the reader, for every blob
      OrdinalSet.decode_of_encode    what is written is read as the distinct
                                     ordinals of the list
      OrdinalSet.encode_reads_back_distinct
                                     all of this for any list of ordinals: one with
                                     a negative ordinal is refused, the others are
                                     read back, and the blob tells them apart

  WHAT IS NOT SAID.  Blobs that were not written here: `Proofs/OrdinalGrammar.lean`.
-/
import FacetIndex.OrdinalSet.Words
import FacetIndex.Proofs.OrdinalSet

set_option autoImplicit false

namespace FacetIndex.OrdinalSet.Words

/-! ## Arithmetic -/

theorem toNat_and_groupMask (a : UInt32) : (a &&& 0x7f).toUInt8.toNat = a.toNat % 128 := by
  have hmask : (0x7f : UInt32).toNat = 2 ^ 7 - 1 := rfl
  rw [UInt32.toNat_toUInt8, UInt32.toNat_and, hmask, Nat.and_two_pow_sub_one_eq_mod]
  omega

/-- The byte of the last group. -/
theorem lastGroup_eq (a : UInt32) : (a &&& 0x7f).toUInt8 = UInt8.ofNat (a.toNat % 128) := by
  rw [← toNat_and_groupMask, UInt8.ofNat_toNat]

/-- The byte of a group that is continued. -/
theorem continuedGroup_eq (a : UInt32) :
    0x80 ||| (a &&& 0x7f).toUInt8 = UInt8.ofNat (128 + a.toNat % 128) := by
  have hbit : (0x80 : UInt8).toNat = 2 ^ 7 * 1 := rfl
  have hgroup := toNat_and_groupMask a
  apply UInt8.toNat_inj.1
  rw [UInt8.toNat_or, hgroup, hbit, ← Nat.two_pow_add_eq_or_of_lt (by omega), UInt8.toNat_ofNat']
  omega

theorem shiftDown?_group (a : UInt32) {k : Nat} (hk : k ≤ 4) :
    ∃ high, shiftDown? a (7 * k) = some high ∧ high.toNat = a.toNat / 128 ^ k := by
  refine ⟨a >>> UInt32.ofNat (7 * k), if_pos (by omega), ?_⟩
  rw [UInt32.toNat_shiftRight, UInt32.toNat_ofNat', Nat.mod_eq_of_lt (by omega : 7 * k < 2 ^ 32),
    Nat.mod_eq_of_lt (by omega : 7 * k < 32), Nat.shiftRight_eq_div_pow, Nat.pow_mul]

theorem shiftUp?_eq {a : UInt64} (h : a.toNat < 2 ^ 57) :
    ∃ shifted, shiftUp? a = some shifted ∧ shifted.toNat = 128 * a.toNat := by
  have hup : (a <<< 7).toNat = 128 * a.toNat := by
    rw [UInt64.toNat_shiftLeft, Nat.shiftLeft_eq]
    simp only [UInt64.reduceToNat, Nat.reduceMod, Nat.reducePow]
    omega
  have hback : a <<< 7 >>> 7 = a := by
    apply UInt64.toNat_inj.1
    rw [UInt64.toNat_shiftRight, hup, Nat.shiftRight_eq_div_pow]
    simp only [UInt64.reduceToNat, Nat.reduceMod, Nat.reducePow]
    omega
  exact ⟨a <<< 7, if_pos hback, hup⟩

theorem add?_eq {a b : UInt64} (h : a.toNat + b.toNat < 2 ^ 64) :
    ∃ sum, add? a b = some sum ∧ sum.toNat = a.toNat + b.toNat := by
  have hsum : (a + b).toNat = a.toNat + b.toNat := by
    rw [UInt64.toNat_add, Nat.mod_eq_of_lt h]
  refine ⟨a + b, if_pos ?_, hsum⟩
  rw [UInt64.le_iff_toNat_le, hsum]
  exact Nat.le_add_right _ _

/-! ## Writing -/

theorem leadingGroups_eq_succ {n k : Nat} (hk : k < 4) (hlow : 128 ^ (k + 1) ≤ n)
    (hhigh : n < 128 ^ (k + 1 + 1)) : leadingGroups n = k + 1 := by
  unfold leadingGroups
  obtain rfl | rfl | rfl | rfl : k = 0 ∨ k = 1 ∨ k = 2 ∨ k = 3 := by omega
  all_goals (repeat' split) <;> omega

/-- The search from the highest group down stops at the first one that is not zero. -/
theorem leading?_eq (delta : UInt32) (k : Nat) (hk : k ≤ 4) (h : delta.toNat < 128 ^ (k + 1)) :
    leading? delta k = some (leadingGroups delta.toNat) := by
  induction k with
  | zero =>
    rw [leading?, leadingGroups, if_pos (by simpa using h)]
  | succ k ih =>
    obtain ⟨high, hshift, hhigh⟩ := shiftDown?_group delta hk
    rw [leading?, hshift, Option.bind_some]
    by_cases hzero : high = 0
    · rw [if_pos hzero]
      rw [hzero, UInt32.toNat_zero, eq_comm, Nat.div_eq_zero_iff_lt (by positivity)] at hhigh
      exact ih (by omega) hhigh
    · rw [if_neg hzero]
      have hlow : 128 ^ (k + 1) ≤ delta.toNat := by
        by_contra hlt
        rw [Nat.div_eq_of_lt (Nat.not_le.1 hlt)] at hhigh
        exact hzero (UInt32.toNat_inj.1 hhigh)
      rw [leadingGroups_eq_succ (by omega) hlow h]

/-- The highest of the groups that are continued stands first. -/
theorem writeLeading_succ (k n : Nat) :
    writeLeading (k + 1) n = UInt8.ofNat (128 + n / 128 ^ k % 128) :: writeLeading k n := by
  induction k generalizing n with
  | zero => simp [writeLeading]
  | succ k ih =>
    rw [writeLeading, ih (n / 128), Nat.div_div_eq_div_mul, ← Nat.pow_succ', List.cons_append]
    rfl

theorem writeGroups?_eq (delta : UInt32) (k : Nat) (hk : k ≤ 4) :
    writeGroups? delta k =
      some (writeLeading k (delta.toNat / 128) ++ [UInt8.ofNat (delta.toNat % 128)]) := by
  induction k with
  | zero =>
    rw [writeGroups?, lastGroup_eq]
    rfl
  | succ k ih =>
    obtain ⟨high, hshift, hhigh⟩ := shiftDown?_group delta hk
    rw [writeGroups?, hshift, Option.bind_some, ih (by omega), Option.map_some,
      continuedGroup_eq, hhigh, writeLeading_succ, Nat.div_div_eq_div_mul, ← Nat.pow_succ',
      List.cons_append]

theorem writeDelta?_eq (delta : UInt32) : writeDelta? delta = some (writeDelta delta.toNat) := by
  have hroom : delta.toNat < 128 ^ (4 + 1) :=
    Nat.lt_trans delta.toNat_lt (by norm_num)
  have hleading : leading? delta (maxGroups - 1) = some (leadingGroups delta.toNat) :=
    leading?_eq delta 4 (Nat.le_refl 4) hroom
  have hgroups : leadingGroups delta.toNat ≤ 4 := by
    have hlength := length_writeDelta_le delta.toNat
    rw [length_writeDelta, maxGroups] at hlength
    omega
  rw [writeDelta?, hleading, Option.bind_some, writeGroups?_eq delta _ hgroups]
  rfl

theorem toNat_toUInt32 {o : Ordinal} (h : 0 ≤ o) : o.toUInt32.toNat = o.toInt.toNat := by
  have hvalue : o.toInt =
      if 2 * o.toUInt32.toNat < 2 ^ 32 then (o.toUInt32.toNat : Int)
      else o.toUInt32.toNat - (2 ^ 32 : Nat) :=
    BitVec.toInt_eq_toNat_cond o.toBitVec
  have hlt := o.toUInt32.toNat_lt
  rw [Int32.le_iff_toInt_le, Int32.toInt_zero] at h
  split at hvalue <;> omega

theorem writeDeltas?_eq (os : List Ordinal) :
    ∀ last : Option UInt32, (∀ o ∈ os, 0 ≤ o) → os.Pairwise (· < ·) →
      (∀ previous, last = some previous → ∀ o ∈ os, previous.toNat ≤ o.toInt.toNat) →
      writeDeltas? last os =
        some (writeDeltas ((last.map (·.toNat)).getD 0) (os.map (·.toInt.toNat))) := by
  induction os with
  | nil => intro last _ _ _; rfl
  | cons o os ih =>
    intro last hnonneg hsorted hlast
    obtain ⟨ho, hsorted⟩ := List.pairwise_cons.1 hsorted
    have hword := toNat_toUInt32 (hnonneg o List.mem_cons_self)
    have hdelta : ∃ delta, delta? last o.toUInt32 = some delta ∧
        delta.toNat = o.toInt.toNat - (last.map (·.toNat)).getD 0 := by
      cases last with
      | none => exact ⟨_, rfl, hword⟩
      | some previous =>
        have hle : previous ≤ o.toUInt32 := by
          rw [UInt32.le_iff_toNat_le, hword]
          exact hlast previous rfl o List.mem_cons_self
        refine ⟨o.toUInt32 - previous, if_pos hle, ?_⟩
        rw [UInt32.toNat_sub_of_le _ _ hle, hword]
        rfl
    obtain ⟨delta, hdelta, hvalue⟩ := hdelta
    have hrest := ih (some o.toUInt32) (fun p hp => hnonneg p (List.mem_cons_of_mem o hp)) hsorted
      (fun previous hprevious p hp => by
        cases hprevious
        rw [hword]
        exact Nat.le_of_lt (toNat_lt_toNat (hnonneg o List.mem_cons_self) (ho p hp)))
    rw [Option.map_some, Option.getD_some, hword] at hrest
    rw [writeDeltas?, hdelta, Option.bind_some, writeDelta?_eq, Option.bind_some, hrest,
      Option.map_some, hvalue, List.map_cons, writeDeltas]

/-- The writer never leaves the range of its words, and what it makes is the blob. -/
theorem encode?_eq (os : List Ordinal) : encode? os = some (encode os, Ordinal.sort os) := by
  have hsorted := Ordinal.pairwise_sort os
  unfold encode? encode
  dsimp only
  cases hsort : Ordinal.sort os with
  | nil => rfl
  | cons least rest =>
    dsimp only
    by_cases hneg : least < 0
    · rw [if_pos hneg, if_pos hneg]
    · rw [if_neg hneg, if_neg hneg]
      rw [hsort] at hsorted
      have hnonneg : ∀ o ∈ Ordinal.dropRepeats (least :: rest), 0 ≤ o := by
        intro o ho
        have hleast : 0 ≤ least := Int32.not_lt.1 hneg
        rcases List.mem_cons.1 (Ordinal.mem_dropRepeats.1 ho) with rfl | ho
        · exact hleast
        · exact Int32.le_trans hleast ((List.pairwise_cons.1 hsorted).1 o ho)
      rw [writeDeltas?_eq _ none hnonneg (Ordinal.pairwise_dropRepeats hsorted) (by nofun)]
      rfl

/-! ## Reading -/

/-- The reader of numbers that stands at the same place. -/
def Decoder.numbers (d : Decoder) : OrdinalSet.Decoder :=
  ⟨d.rest, d.position, d.last.map (·.toNat)⟩

/-- A group read adds seven bits. -/
theorem toNat_or_group {shifted value : UInt64} (b : UInt8)
    (h : shifted.toNat = 128 * value.toNat) :
    (shifted ||| (b &&& 0x7f).toUInt64).toNat = 128 * value.toNat + b.toNat % 128 := by
  have hmask : (0x7f : UInt8).toNat = 2 ^ 7 - 1 := rfl
  have hgroup : b.toNat % 2 ^ 7 < 2 ^ 7 := Nat.mod_lt _ (by positivity)
  rw [UInt64.toNat_or, UInt8.toNat_toUInt64, UInt8.toNat_and, hmask,
    Nat.and_two_pow_sub_one_eq_mod, h]
  exact (Nat.two_pow_add_eq_or_of_lt hgroup value.toNat).symm

theorem and_continuation_eq_zero_iff (b : UInt8) : b &&& 0x80 = 0 ↔ b < 128 := by
  have hb := b.toNat_lt
  have hmask : (0x80 : UInt8).toNat = 2 ^ 7 := rfl
  have hzero : (0 : UInt8).toNat = 0 := rfl
  rw [← UInt8.toNat_inj, UInt8.toNat_and, hmask, Nat.and_two_pow, Nat.toNat_testBit, hzero,
    UInt8.lt_iff_toNat_lt, hmask]
  omega

theorem toNat_mod_of_lt {b : UInt8} (h : b < 128) : b.toNat % 128 = b.toNat :=
  Nat.mod_eq_of_lt (UInt8.lt_iff_toNat_lt.1 h)

theorem toInt32_toUInt32 (a : UInt64) : a.toUInt32.toInt32 = Int32.ofNat a.toNat := by
  apply Int32.toBitVec_inj.1
  apply BitVec.eq_of_toNat_eq
  simp

/-- The room that five groups give is enough for the groups read so far. -/
theorem value_lt {group value : Nat} (b : UInt8) (hgroup : ¬ group = maxGroups)
    (hle : group ≤ maxGroups) (h : value < 128 ^ group) :
    group + 1 ≤ maxGroups ∧ value < 2 ^ 57 ∧ 128 * value + b.toNat % 128 < 128 ^ (group + 1) := by
  have hpow : 128 ^ group ≤ 128 ^ 5 := Nat.pow_le_pow_right (by norm_num) hle
  have hb : b.toNat % 128 < 128 := Nat.mod_lt _ (by norm_num)
  rw [Nat.pow_succ']
  omega

/-- A delta read has five groups at most, and the reader has moved on. -/
theorem bounds_of_readDelta {bytes rest : Bytes} {position group value v p : Nat}
    (h : readDelta position group value bytes = .ok (v, p, rest)) (hgroup : group ≤ maxGroups)
    (hvalue : value < 128 ^ group) : v < 128 ^ maxGroups ∧ position < p := by
  induction bytes generalizing position group value with
  | nil =>
    rw [readDelta] at h
    split at h <;> cases h
  | cons b bytes ih =>
    rw [readDelta] at h
    split at h
    · cases h
    · rename_i hopen
      obtain ⟨hgroup', _, hvalue'⟩ := value_lt b hopen hgroup hvalue
      split at h
      · rename_i hlast
        simp only [Except.ok.injEq, Prod.mk.injEq] at h
        obtain ⟨rfl, rfl, rfl⟩ := h
        rw [toNat_mod_of_lt hlast] at hvalue'
        exact ⟨Nat.lt_of_lt_of_le hvalue' (Nat.pow_le_pow_right (by norm_num) hgroup'),
          Nat.lt_succ_self position⟩
      · obtain ⟨hv, hp⟩ := ih h hgroup' hvalue'
        exact ⟨hv, Nat.lt_of_succ_lt hp⟩

theorem readDelta?_eq (bytes : Bytes) :
    ∀ (position group : Nat) (value : UInt64), group ≤ maxGroups → value.toNat < 128 ^ group →
      ∃ outcome, readDelta? position group value bytes = some outcome ∧
        readDelta position group value.toNat bytes =
          outcome.map fun read => (read.1.toNat, read.2) := by
  induction bytes with
  | nil =>
    intro position group value _ _
    rw [readDelta?, readDelta]
    split
    · exact ⟨_, rfl, rfl⟩
    · exact ⟨_, rfl, rfl⟩
  | cons b bytes ih =>
    intro position group value hgroup hvalue
    rw [readDelta?, readDelta]
    by_cases hopen : group = maxGroups
    · rw [if_pos hopen, if_pos hopen]
      exact ⟨_, rfl, rfl⟩
    · obtain ⟨hgroup', hroom, hvalue'⟩ := value_lt b hopen hgroup hvalue
      obtain ⟨shifted, hshift, hshifted⟩ := shiftUp?_eq hroom
      have hnext := toNat_or_group b hshifted
      rw [if_neg hopen, if_neg hopen, hshift, Option.bind_some]
      by_cases hlast : b < 128
      · rw [if_pos ((and_continuation_eq_zero_iff b).2 hlast), if_pos hlast]
        rw [toNat_mod_of_lt hlast] at hnext
        exact ⟨_, rfl, by rw [Except.map, hnext]⟩
      · rw [if_neg (mt (and_continuation_eq_zero_iff b).1 hlast), if_neg hlast, ← hnext]
        rw [← hnext] at hvalue'
        exact ih _ _ _ hgroup' hvalue'

namespace Decoder

theorem value?_eq (d : Decoder) {delta : UInt64} (h : delta.toNat < 128 ^ maxGroups) :
    ∃ value, d.value? delta = some value ∧
      value.toNat = d.numbers.last.getD 0 + delta.toNat := by
  rw [maxGroups] at h
  unfold value? numbers
  cases hlast : d.last with
  | none => exact ⟨delta, rfl, (Nat.zero_add _).symm⟩
  | some previous =>
    have hle : previous.toNat ≤ 0x7fffffff := UInt64.le_iff_toNat_le.1 (d.last_le previous hlast)
    exact add?_eq (by omega)

/-- Both readers give the same fault or the same ordinal, and behind it they stand at the same
place. -/
theorem readOrdinal?_cases (d : Decoder) :
    (∃ fault, d.readOrdinal? = some (.error fault) ∧ d.numbers.readOrdinal = .error fault) ∨
      ∃ value d', d.readOrdinal? = some (.ok (Int32.ofNat value, d')) ∧
        d.numbers.readOrdinal = .ok (value, d'.numbers) := by
  obtain ⟨outcome, hread, hnumbers⟩ :=
    readDelta?_eq d.rest d.position 0 0 (Nat.zero_le _) (by norm_num)
  replace hnumbers : readDelta d.numbers.position 0 0 d.numbers.rest =
      outcome.map fun read => (read.1.toNat, read.2) := hnumbers
  rw [readOrdinal?, hread, Option.bind_some, OrdinalSet.Decoder.readOrdinal, hnumbers]
  obtain fault | ⟨delta, position, rest⟩ := outcome
  · exact .inl ⟨fault, rfl, rfl⟩
  · obtain ⟨hdelta, hposition⟩ := bounds_of_readDelta hnumbers (Nat.zero_le _) (by norm_num)
    have hzero : (d.numbers.last.isSome && decide (delta.toNat = 0)) =
        (d.last.isSome && decide (delta = 0)) := by
      have hiff : delta.toNat = 0 ↔ delta = 0 := by
        rw [← UInt64.toNat_inj, UInt64.toNat_zero]
      rw [numbers, Option.isSome_map, decide_eq_decide.2 hiff]
    simp only [Except.map]
    rw [hzero]
    split
    · obtain ⟨place, rfl⟩ := Nat.exists_eq_succ_of_ne_zero (Nat.ne_zero_of_lt hposition)
      exact .inl ⟨_, rfl, rfl⟩
    · obtain ⟨value, hvalue, hsum⟩ := d.value?_eq hdelta
      have hle : value ≤ 0x7fffffff ↔ ¬ Ordinal.largest < value.toNat :=
        UInt64.le_iff_toNat_le.trans Nat.not_lt.symm
      rw [hvalue, Option.map_some, ← hsum]
      by_cases hfits : value ≤ 0x7fffffff
      · rw [dif_pos hfits, if_neg (hle.1 hfits), toInt32_toUInt32]
        exact .inr ⟨_, _, rfl, rfl⟩
      · rw [dif_neg hfits, if_pos (Decidable.not_not.1 (mt hle.2 hfits))]
        exact .inl ⟨_, rfl, rfl⟩

theorem exists_next? (d : Decoder) :
    ∃ step d', d.next? = some (step, d') ∧ d.numbers.next = (step, d'.numbers) := by
  have hrest : d.numbers.rest = d.rest := rfl
  rw [next?, OrdinalSet.Decoder.next, hrest]
  cases d.rest with
  | nil => exact ⟨_, d, rfl, rfl⟩
  | cons b bytes =>
    obtain ⟨fault, hread, hnumbers⟩ | ⟨value, d', hread, hnumbers⟩ := d.readOrdinal?_cases
    · rw [hread, hnumbers]
      exact ⟨_, _, rfl, rfl⟩
    · rw [hread, hnumbers]
      exact ⟨_, d', rfl, rfl⟩

theorem next_numbers {d d' : Decoder} {step : Option (Except FormatFault Ordinal)}
    (h : d.next? = some (step, d')) : d.numbers.next = (step, d'.numbers) := by
  obtain ⟨step', d'', hnext, hnumbers⟩ := d.exists_next?
  rw [h] at hnext
  cases hnext
  exact hnumbers

theorem all?_eq (d : Decoder) : d.all? = some d.numbers.all := by
  fun_induction all? d with
  | case1 d h =>
    obtain ⟨step, d', hnext, _⟩ := d.exists_next?
    rw [h] at hnext
    cases hnext
  | case2 d d' h => rw [OrdinalSet.Decoder.all.eq_def, next_numbers h]
  | case3 d fault d' h => rw [OrdinalSet.Decoder.all.eq_def, next_numbers h]
  | case4 d o d' h ih =>
    rw [OrdinalSet.Decoder.all.eq_def, next_numbers h, ih]
    cases hrest : d'.numbers.all with
    | error fault => simp only [hrest, Option.map_some]
    | ok os => simp only [hrest, Option.map_some]

end Decoder

/-- The reader never leaves the range of its words, and what it reads is what the blob holds. -/
theorem decode?_eq (bytes : Bytes) : decode? bytes = some (decode bytes) :=
  Decoder.all?_eq _

end FacetIndex.OrdinalSet.Words

namespace FacetIndex.OrdinalSet

/-! ## Round trip -/

theorem length_writeDeltas_le (previous : Nat) (ns : List Nat) :
    (writeDeltas previous ns).length ≤ maxGroups * ns.length := by
  induction ns generalizing previous with
  | nil => exact Nat.zero_le _
  | cons n ns ih =>
    have hdelta := length_writeDelta_le (n - previous)
    have hrest := ih n
    rw [writeDeltas, List.length_append, List.length_cons, Nat.mul_succ]
    omega

theorem length_blob_le (os : List Ordinal) :
    (blob os).length ≤ maxGroups * (distinct os).length := by
  have hlength := length_writeDeltas_le 0 ((distinct os).map (·.toInt.toNat))
  rwa [List.length_map] at hlength

/-- A list with a negative ordinal is refused. -/
theorem encode_eq_error {os : List Ordinal} (h : ∃ o ∈ os, o < 0) :
    encode os = .error (.argument "ordinals" "min >= 0") := by
  obtain ⟨o, ho, hneg⟩ := h
  have hsorted := Ordinal.pairwise_sort os
  rw [← (Ordinal.sort_perm os).mem_iff] at ho
  unfold encode
  cases hsort : Ordinal.sort os with
  | nil =>
    rw [hsort] at ho
    cases ho
  | cons least rest =>
    rw [hsort] at ho hsorted
    have hleast : least ≤ o := by
      rcases List.mem_cons.1 ho with rfl | ho
      · exact Int32.le_refl _
      · exact (List.pairwise_cons.1 hsorted).1 o ho
    exact if_pos (Std.lt_of_le_of_lt hleast hneg)

theorem nonneg_of_encode {os : List Ordinal} {blob : Bytes} (h : encode os = .ok blob) :
    ∀ o ∈ os, 0 ≤ o := by
  intro o ho
  by_contra hneg
  cases h.symm.trans (encode_eq_error ⟨o, ho, Int32.not_le.1 hneg⟩)

/-- Whatever is written is read back, without repeats and in ascending order. -/
theorem decode_of_encode {os : List Ordinal} {blob : Bytes} (h : encode os = .ok blob) :
    decode blob = .ok (distinct os) := by
  have hnonneg := nonneg_of_encode h
  rw [encode_eq_blob hnonneg] at h
  cases h
  exact decode_blob hnonneg

/-- Lists with the same members have the same blob, and no others have. -/
theorem blob_eq_iff {xs ys : List Ordinal} (hx : ∀ o ∈ xs, 0 ≤ o) (hy : ∀ o ∈ ys, 0 ≤ o) :
    blob xs = blob ys ↔ ∀ o, o ∈ xs ↔ o ∈ ys := by
  constructor
  · intro h o
    have hread := decode_blob hx
    rw [h, decode_blob hy] at hread
    rw [← @mem_distinct o xs, ← @mem_distinct o ys, Except.ok.inj hread]
  · intro h
    have hmem : ∀ o, o ∈ distinct xs ↔ o ∈ distinct ys := fun o => by
      rw [mem_distinct, mem_distinct, h]
    rw [blob, blob, (pairwise_distinct xs).eq_of_mem_iff (pairwise_distinct ys) hmem]

/-- Whatever is asked, the writer stays in the range of its words and leaves the list sorted.  A
negative ordinal is refused.  What is made of other lists is short, and both readers find the
members of the list in it, each once and in ascending order; so it tells apart just the lists with
different members. -/
theorem encode_reads_back_distinct (xs : List Ordinal) :
    (∃ outcome left, Words.encode? xs = some (outcome, left) ∧ encode xs = outcome ∧
      left.Perm xs ∧ left.Pairwise (· ≤ ·) ∧
      ((∃ o ∈ xs, o < 0) → outcome = .error (.argument "ordinals" "min >= 0")) ∧
      ((∀ o ∈ xs, 0 ≤ o) → ∃ bytes os, outcome = .ok bytes ∧
        Words.decode? bytes = some (.ok os) ∧ decode bytes = .ok os ∧
        os.Pairwise (· < ·) ∧ (∀ o, o ∈ os ↔ o ∈ xs) ∧ bytes.length ≤ 5 * os.length)) ∧
    ∀ ys : List Ordinal, (∀ o ∈ xs, 0 ≤ o) → (∀ o ∈ ys, 0 ≤ o) →
      (encode xs = encode ys ↔ ∀ o, o ∈ xs ↔ o ∈ ys) := by
  refine ⟨⟨encode xs, Ordinal.sort xs, Words.encode?_eq xs, rfl, Ordinal.sort_perm xs,
    Ordinal.pairwise_sort xs, encode_eq_error, fun hx => ?_⟩, fun ys hx hy => ?_⟩
  · refine ⟨blob xs, distinct xs, encode_eq_blob hx, ?_, decode_blob hx, pairwise_distinct xs,
      fun o => mem_distinct, length_blob_le xs⟩
    rw [Words.decode?_eq, decode_blob hx]
  · rw [encode_eq_blob hx, encode_eq_blob hy, Except.ok.injEq, blob_eq_iff hx hy]

/-- The least ordinals of each length, the largest ordinal, and repeats. -/
def lengthBoundaries : List Ordinal :=
  [0x7fffffff, 0, 0x4000, 0x80, 0, 0x10000000, 0x80, 0x200000]

/-- The blob of `lengthBoundaries`: deltas of one byte up to five. -/
def lengthBoundariesBlob : Bytes :=
  [0, 0x81, 0, 0xff, 0, 0xff, 0x80, 0, 0xff, 0x80, 0x80, 0, 0x86, 0xff, 0xff, 0xff, 0x7f]

theorem encode_reads_back_distinct_lengthBoundaries :
    (∀ o ∈ lengthBoundaries, 0 ≤ o) ∧ encode lengthBoundaries = .ok lengthBoundariesBlob ∧
      encode lengthBoundaries.reverse = .ok lengthBoundariesBlob ∧
      ∃ os, decode lengthBoundariesBlob = .ok os ∧ os.Pairwise (· < ·) ∧
        (∀ o, o ∈ os ↔ o ∈ lengthBoundaries) ∧ lengthBoundariesBlob.length ≤ 5 * os.length := by
  have hnonneg : ∀ o ∈ lengthBoundaries, 0 ≤ o := by simp [lengthBoundaries]
  have hform : encode lengthBoundaries = .ok lengthBoundariesBlob := by cbv
  obtain ⟨⟨_, _, _, rfl, _, _, _, hok⟩, hsame⟩ := encode_reads_back_distinct lengthBoundaries
  obtain ⟨bytes, os, hbytes, _, hread, hascending, hmem, hlength⟩ := hok hnonneg
  have hreverse := (hsame lengthBoundaries.reverse hnonneg
    (fun o ho => hnonneg o (List.mem_reverse.1 ho))).2 fun o => List.mem_reverse.symm
  obtain rfl : bytes = lengthBoundariesBlob := Except.ok.inj (hbytes.symm.trans hform)
  exact ⟨hnonneg, hform, hreverse.symm.trans hform, os, hread, hascending, hmem, hlength⟩

end FacetIndex.OrdinalSet
