/-
  Proofs/OrdinalSet.lean --- reading back what was written.

  WHAT THIS FILE IS FOR.  An ordinal set is written as the deltas of its ordinals in
  ascending order, each in groups of seven bits.  What the writer makes is read
  back, from the part to the whole.

  WHAT IS PROVED.

      OrdinalSet.readDelta_writeDelta   the groups of one delta, and the reader
                                        stands right behind them
      OrdinalSet.next_writeDelta        one step of a reader, from its last ordinal
      OrdinalSet.all_writeDeltas        the deltas of an ascending list
      OrdinalSet.decode_blob            the blob of a list without negative
                                        ordinals is read as its distinct ordinals

  `OrdinalSet.distinct` and `OrdinalSet.blob` are the set and its bytes without the
  check for negative ordinals; `OrdinalSet.encode_eq_blob` says when the check is
  passed.

  WHAT IS NOT SAID.  Numbers are unbounded here.  That the words of the writer and
  of the reader hold them is the matter of `Proofs/OrdinalWords.lean`.
-/
import Mathlib
import FacetIndex.OrdinalSet

set_option autoImplicit false

namespace FacetIndex.OrdinalSet

/-! ## One delta -/

/-- The reader takes the leading groups of a number one after the other. -/
theorem readDelta_writeLeading (k : Nat) :
    ∀ (n position group value : Nat) (rest : Bytes), group + k ≤ maxGroups →
      readDelta position group value (writeLeading k n ++ rest) =
        readDelta (position + k) (group + k) (128 ^ k * value + n % 128 ^ k) rest := by
  induction k with
  | zero =>
    intro n position group value rest _
    simp [writeLeading, Nat.mod_one]
  | succ k ih =>
    intro n position group value rest hgroup
    have hbyte : (UInt8.ofNat (128 + n % 128)).toNat = 128 + n % 128 := by
      rw [UInt8.toNat_ofNat']
      omega
    have hlarge : ¬ UInt8.ofNat (128 + n % 128) < 128 := by
      rw [UInt8.lt_iff_toNat_lt, hbyte]
      exact Nat.not_lt.2 (Nat.le_add_right 128 _)
    have hopen : ¬ group + k = maxGroups := by omega
    have hvalue : 128 * (128 ^ k * value + n / 128 % 128 ^ k) + (128 + n % 128) % 128 =
        128 ^ (k + 1) * value + n % 128 ^ (k + 1) := by
      rw [Nat.pow_succ', Nat.mod_mul, Nat.add_mod_left, Nat.mod_mod, Nat.mul_add, Nat.mul_assoc]
      omega
    rw [writeLeading, List.append_assoc, ih (n / 128) _ _ _ _ (by omega)]
    simp only [List.singleton_append, readDelta, if_neg hopen, if_neg hlarge, hbyte, hvalue]
    rfl

/-- The leading groups have room for everything above the last group. -/
theorem div_lt_pow_leadingGroups {n : Nat} (h : n < 128 ^ maxGroups) :
    n / 128 < 128 ^ leadingGroups n := by
  rw [maxGroups] at h
  unfold leadingGroups
  split
  · omega
  · split
    · omega
    · split
      · omega
      · split <;> omega

/-- A delta is read back, and the reader stands right behind it. -/
theorem readDelta_writeDelta {n : Nat} (position : Nat) (rest : Bytes)
    (h : n < 128 ^ maxGroups) :
    readDelta position 0 0 (writeDelta n ++ rest) =
      .ok (n, position + (writeDelta n).length, rest) := by
  have hlength := length_writeDelta n
  have hroom := length_writeDelta_le n
  have hopen : ¬ 0 + leadingGroups n = maxGroups := by omega
  have hbyte : (UInt8.ofNat (n % 128)).toNat = n % 128 := by
    rw [UInt8.toNat_ofNat']
    omega
  have hsmall : UInt8.ofNat (n % 128) < 128 := by
    rw [UInt8.lt_iff_toNat_lt, hbyte]
    exact Nat.mod_lt n (by decide)
  rw [hlength, writeDelta, List.append_assoc, readDelta_writeLeading _ _ _ _ _ _ (by omega),
    Nat.mod_eq_of_lt (div_lt_pow_leadingGroups h)]
  simp only [List.singleton_append, readDelta, if_neg hopen, if_pos hsmall, hbyte,
    Except.ok.injEq, Prod.mk.injEq, and_true]
  omega

theorem writeDelta_ne_nil (n : Nat) : writeDelta n ≠ [] := by
  intro h
  have hlength := length_writeDelta n
  rw [h, List.length_nil] at hlength
  omega

/-! ## The deltas of an ascending list -/

/-- A reader that stands before the delta from its last ordinal to `n` reads `n`. -/
theorem readOrdinal_writeDelta {n : Nat} (position : Nat) (last : Option Nat) (rest : Bytes)
    (hlast : ∀ m, last = some m → m < n) (hn : n ≤ Ordinal.largest) :
    Decoder.readOrdinal ⟨writeDelta (n - last.getD 0) ++ rest, position, last⟩ =
      .ok (n, ⟨rest, position + (writeDelta (n - last.getD 0)).length, some n⟩) := by
  have hle : last.getD 0 ≤ n := by
    cases last with
    | none => exact Nat.zero_le n
    | some m => exact Nat.le_of_lt (hlast m rfl)
  have hsmall : n - last.getD 0 < 128 ^ maxGroups := by
    rw [Ordinal.largest] at hn
    rw [maxGroups]
    omega
  have hzero : (last.isSome && n - last.getD 0 = 0) = false := by
    cases last with
    | none => rfl
    | some m =>
      have := hlast m rfl
      simp only [Option.getD_some, Option.isSome_some, Bool.true_and, decide_eq_false_iff_not]
      omega
  have hsum : last.getD 0 + (n - last.getD 0) = n := by omega
  have hfits : ¬ Ordinal.largest < n := by omega
  rw [Decoder.readOrdinal, readDelta_writeDelta position rest hsmall]
  simp only [hzero, hsum, hfits, if_false, Bool.false_eq_true]

/-- One step of a reader at the delta from its last ordinal to `n`. -/
theorem next_writeDelta {n : Nat} (position : Nat) (last : Option Nat) (rest : Bytes)
    (hlast : ∀ m, last = some m → m < n) (hn : n ≤ Ordinal.largest) :
    Decoder.next ⟨writeDelta (n - last.getD 0) ++ rest, position, last⟩ =
      (some (.ok (Int32.ofNat n)),
        ⟨rest, position + (writeDelta (n - last.getD 0)).length, some n⟩) := by
  have hread := readOrdinal_writeDelta position last rest hlast hn
  cases hbytes : writeDelta (n - last.getD 0) ++ rest with
  | nil => exact absurd (List.append_eq_nil_iff.1 hbytes).1 (writeDelta_ne_nil _)
  | cons b bs =>
    rw [hbytes] at hread
    simp only [Decoder.next, hread]

/-- What a reader gives on the deltas of an ascending list that goes on from its last ordinal. -/
theorem all_writeDeltas :
    ∀ (ns : List Nat) (position : Nat) (last : Option Nat),
      (∀ m, last = some m → ∀ n ∈ ns, m < n) → ns.Pairwise (· < ·) →
      (∀ n ∈ ns, n ≤ Ordinal.largest) →
      Decoder.all ⟨writeDeltas (last.getD 0) ns, position, last⟩ =
        .ok (ns.map Int32.ofNat) := by
  intro ns
  induction ns with
  | nil =>
    intro position last _ _ _
    rw [Decoder.all.eq_def]
    rfl
  | cons n ns ih =>
    intro position last hlast hsorted hlargest
    obtain ⟨hn, hsorted⟩ := List.pairwise_cons.1 hsorted
    have hstep := next_writeDelta position last (writeDeltas n ns)
      (fun m hm => hlast m hm n List.mem_cons_self) (hlargest n List.mem_cons_self)
    have hrest := ih (position + (writeDelta (n - last.getD 0)).length) (some n)
      (fun m hm => by cases hm; exact hn) hsorted
      (fun k hk => hlargest k (List.mem_cons_of_mem n hk))
    rw [Option.getD_some] at hrest
    rw [writeDeltas, Decoder.all.eq_def, hstep]
    simp only [hrest, List.map_cons]

/-! ## Whole sets -/

/-- The distinct ordinals of a list, in ascending order. -/
def distinct (ordinals : List Ordinal) : List Ordinal :=
  Ordinal.dropRepeats (Ordinal.sort ordinals)

theorem mem_distinct {o : Ordinal} {os : List Ordinal} : o ∈ distinct os ↔ o ∈ os := by
  rw [distinct, Ordinal.mem_dropRepeats, (Ordinal.sort_perm os).mem_iff]

theorem pairwise_distinct (os : List Ordinal) : (distinct os).Pairwise (· < ·) :=
  Ordinal.pairwise_dropRepeats (Ordinal.pairwise_sort os)

/-- The blob of the distinct ordinals of a list, when none of them is negative. -/
def blob (ordinals : List Ordinal) : Bytes :=
  writeDeltas 0 ((distinct ordinals).map (·.toInt.toNat))

/-- A list without negative ordinals is encoded. -/
theorem encode_eq_blob {os : List Ordinal} (h : ∀ o ∈ os, 0 ≤ o) : encode os = .ok (blob os) := by
  unfold encode blob distinct
  split
  · rename_i hnil
    simp [hnil, Ordinal.dropRepeats, writeDeltas]
  · rename_i least rest hsorted
    have hleast : 0 ≤ least := by
      apply h
      rw [← (Ordinal.sort_perm os).mem_iff, hsorted]
      exact List.mem_cons_self
    rw [if_neg (Int32.not_lt.2 hleast), hsorted]

theorem toNat_lt_toNat {a b : Ordinal} (ha : 0 ≤ a) (h : a < b) :
    a.toInt.toNat < b.toInt.toNat := by
  rw [Int32.le_iff_toInt_le, Int32.toInt_zero] at ha
  rw [Int32.lt_iff_toInt_lt] at h
  omega

theorem toNat_le_largest (o : Ordinal) : o.toInt.toNat ≤ Ordinal.largest := by
  have := Int32.toInt_lt o
  rw [Ordinal.largest]
  omega

theorem ofNat_toNat {o : Ordinal} (h : 0 ≤ o) : Int32.ofNat o.toInt.toNat = o := by
  rw [Int32.le_iff_toInt_le, Int32.toInt_zero] at h
  rw [← Int32.ofInt_eq_ofNat, Int.toNat_of_nonneg h, Int32.ofInt_toInt]

/-- Reading gives back the distinct ordinals that were written. -/
theorem decode_blob {os : List Ordinal} (h : ∀ o ∈ os, 0 ≤ o) :
    decode (blob os) = .ok (distinct os) := by
  have hnonneg : ∀ o ∈ distinct os, 0 ≤ o := fun o ho => h o (mem_distinct.1 ho)
  have hascending : ((distinct os).map (·.toInt.toNat)).Pairwise (· < ·) := by
    rw [List.pairwise_map]
    exact (pairwise_distinct os).imp_of_mem fun ha _ hab => toNat_lt_toNat (hnonneg _ ha) hab
  have hlargest : ∀ n ∈ (distinct os).map (·.toInt.toNat), n ≤ Ordinal.largest := by
    intro n hn
    obtain ⟨o, _, rfl⟩ := List.mem_map.1 hn
    exact toNat_le_largest o
  have hread := all_writeDeltas _ 0 none (fun m hm => by cases hm) hascending hlargest
  rw [Option.getD_none] at hread
  rw [decode, blob, hread, List.map_map]
  congr 1
  exact (List.map_congr_left fun o ho => ofNat_toNat (hnonneg o ho)).trans (List.map_id' _)

end FacetIndex.OrdinalSet
