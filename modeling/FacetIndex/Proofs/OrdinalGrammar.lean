/-
  Proofs/OrdinalGrammar.lean --- which blobs are ordinal sets.

  WHAT THIS FILE IS FOR.  A blob is a row of deltas with nothing between them.  A
  delta says itself where it ends, so that a blob can be cut into deltas in one way
  at most.  The blobs that are read are those that can be cut so that the deltas
  ascend to no more than the largest ordinal, and what is read from them are the
  sums of the deltas.  This describes the reader without its state.

  WHAT IS PROVED.

      OrdinalSet.readDelta_eq_ok_iff        one delta is read exactly if one is there
      OrdinalSet.row_injective              a row of deltas is cut in one way only
      OrdinalSet.Decoder.all_of_ascend, OrdinalSet.Decoder.exists_of_all
                                            both directions, for a reader that has
                                            read something before
      OrdinalSet.decode_iff_ascending_deltas
                                            which blobs are read, and what from them

  WHAT IS NOT SAID.  Which fault is reported for a blob that is refused, except that
  it names an ordinal set.
-/
import FacetIndex.Proofs.OrdinalWords

set_option autoImplicit false

namespace FacetIndex.OrdinalSet

/-! ## Deltas -/

/-- The number whose groups of seven bits stand in the bytes, the highest group first. -/
def groupsValue (bytes : Bytes) : Nat := Nat.ofDigits 128 (bytes.reverse.map (·.toNat % 128))

theorem groupsValue_cons (b : UInt8) (bytes : Bytes) :
    groupsValue (b :: bytes) = 128 ^ bytes.length * (b.toNat % 128) + groupsValue bytes := by
  rw [groupsValue, List.reverse_cons, List.map_append, Nat.ofDigits_append, List.length_map,
    List.length_reverse, List.map_singleton, Nat.ofDigits_singleton, Nat.add_comm]
  rfl

theorem groupsValue_concat (bytes : Bytes) (b : UInt8) :
    groupsValue (bytes ++ [b]) = 128 * groupsValue bytes + b.toNat % 128 := by
  rw [groupsValue, List.reverse_concat, List.map_cons, Nat.ofDigits_cons, Nat.add_comm]
  rfl

theorem groupsValue_lt (bytes : Bytes) : groupsValue bytes < 128 ^ bytes.length := by
  have hgroups : ∀ n ∈ bytes.reverse.map (·.toNat % 128), n < 128 := by
    intro n hn
    obtain ⟨b, _, rfl⟩ := List.mem_map.1 hn
    exact Nat.mod_lt _ (by decide)
  have hlt := Nat.ofDigits_lt_base_pow_length (by decide) hgroups
  rwa [List.length_map, List.length_reverse] at hlt

/-- A delta as it stands in a blob: at most four bytes with the continuation bit, then one without
it. -/
structure Delta where
  /-- The bytes that are continued. -/
  leading : Bytes
  /-- The last byte. -/
  last : UInt8
  /-- Every byte but the last has the continuation bit. -/
  leading_continued : ∀ b ∈ leading, b &&& 0x80 ≠ 0
  /-- The last byte has it not. -/
  last_ends : last &&& 0x80 = 0
  /-- There are five bytes at most. -/
  length_lt : leading.length < maxGroups

namespace Delta

/-- The bytes of a delta. -/
def bytes (d : Delta) : Bytes := d.leading ++ [d.last]

/-- The number that a delta stands for. -/
def value (d : Delta) : Nat := groupsValue d.bytes

theorem length_bytes (d : Delta) : d.bytes.length = d.leading.length + 1 :=
  List.length_append

theorem bytes_ne_nil (d : Delta) : d.bytes ≠ [] := List.concat_ne_nil _ _

theorem ext_bytes {d d' : Delta} (h : d.bytes = d'.bytes) : d = d' := by
  obtain ⟨hleading, hlast⟩ := List.append_inj' h rfl
  cases d
  cases d'
  cases hleading
  cases hlast
  rfl

end Delta

/-! ## Reading one delta -/

/-- The reader takes bytes that are continued and then one that is not. -/
theorem readDelta_leading (leading : Bytes) :
    ∀ (position group value : Nat) (last : UInt8) (rest : Bytes),
      (∀ b ∈ leading, b &&& 0x80 ≠ 0) → last &&& 0x80 = 0 → group + leading.length < maxGroups →
      readDelta position group value (leading ++ last :: rest) =
        .ok (128 ^ (leading.length + 1) * value + groupsValue (leading ++ [last]),
          position + (leading.length + 1), rest) := by
  induction leading with
  | nil =>
    intro position group value last rest _ hlast hroom
    have hsmall := (Words.and_continuation_eq_zero_iff last).1 hlast
    have hopen : ¬ group = maxGroups := Nat.ne_of_lt hroom
    rw [List.nil_append, readDelta, if_neg hopen, if_pos hsmall, List.nil_append, groupsValue_cons,
      Words.toNat_mod_of_lt hsmall, List.length_nil, Nat.zero_add, Nat.pow_one, Nat.pow_zero,
      Nat.one_mul]
    rfl
  | cons b leading ih =>
    intro position group value last rest hleading hlast hroom
    rw [List.length_cons] at hroom ⊢
    have hlarge : ¬ b < 128 :=
      mt (Words.and_continuation_eq_zero_iff b).2 (hleading b List.mem_cons_self)
    have hopen : ¬ group = maxGroups := by omega
    rw [List.cons_append, readDelta, if_neg hopen, if_neg hlarge,
      ih _ _ _ _ _ (fun c hc => hleading c (List.mem_cons_of_mem b hc)) hlast (by omega),
      List.cons_append, groupsValue_cons, List.length_append, List.length_singleton]
    simp only [Except.ok.injEq, Prod.mk.injEq, and_true]
    constructor
    · ring
    · omega

/-- A delta is read, and the reader stands right behind it. -/
theorem readDelta_bytes (d : Delta) (position : Nat) (rest : Bytes) :
    readDelta position 0 0 (d.bytes ++ rest) = .ok (d.value, position + d.bytes.length, rest) := by
  have hread := readDelta_leading d.leading position 0 0 d.last rest d.leading_continued d.last_ends
    (by rw [Nat.zero_add]; exact d.length_lt)
  rw [Nat.mul_zero, Nat.zero_add] at hread
  rw [d.length_bytes, Delta.bytes, List.append_assoc]
  exact hread

/-- What is read as one delta are bytes that are continued and then one that is not. -/
theorem exists_of_readDelta {bytes rest : Bytes} :
    ∀ {position group value v p : Nat}, group ≤ maxGroups →
      readDelta position group value bytes = .ok (v, p, rest) →
      ∃ leading last, bytes = leading ++ last :: rest ∧ (∀ b ∈ leading, b &&& 0x80 ≠ 0) ∧
        last &&& 0x80 = 0 ∧ group + leading.length < maxGroups := by
  induction bytes with
  | nil =>
    intro position group value v p _ h
    rw [readDelta] at h
    split at h <;> cases h
  | cons b bytes ih =>
    intro position group value v p hgroup h
    rw [readDelta] at h
    split at h
    · cases h
    · rename_i hopen
      split at h
      · rename_i hsmall
        cases h
        refine ⟨[], b, rfl, fun c hc => absurd hc List.not_mem_nil, ?_, ?_⟩
        · exact (Words.and_continuation_eq_zero_iff b).2 hsmall
        · exact Nat.lt_of_le_of_ne hgroup hopen
      · rename_i hlarge
        obtain ⟨leading, last, rfl, hleading, hlast, hroom⟩ := ih (by omega) h
        refine ⟨b :: leading, last, rfl, ?_, hlast, ?_⟩
        · exact List.forall_mem_cons.2
            ⟨mt (Words.and_continuation_eq_zero_iff b).1 hlarge, hleading⟩
        · rw [List.length_cons]
          omega

theorem readDelta_eq_ok_iff {position v p : Nat} {bytes rest : Bytes} :
    readDelta position 0 0 bytes = .ok (v, p, rest) ↔
      ∃ d : Delta, bytes = d.bytes ++ rest ∧ v = d.value ∧ p = position + d.bytes.length := by
  constructor
  · intro h
    obtain ⟨leading, last, rfl, hleading, hlast, hroom⟩ := exists_of_readDelta (Nat.zero_le _) h
    rw [Nat.zero_add] at hroom
    let d : Delta := ⟨leading, last, hleading, hlast, hroom⟩
    have hbytes : leading ++ last :: rest = d.bytes ++ rest := (List.append_assoc _ [last] _).symm
    rw [hbytes, readDelta_bytes] at h
    cases h
    exact ⟨d, hbytes, rfl, rfl⟩
  · rintro ⟨d, rfl, rfl, rfl⟩
    exact readDelta_bytes d position rest

theorem element_of_readDelta_error {position group value : Nat} {bytes : Bytes}
    {fault : FormatFault} (h : readDelta position group value bytes = .error fault) :
    fault.element = "ordinal set" := by
  induction bytes generalizing position group value with
  | nil =>
    rw [readDelta] at h
    split at h <;> cases h <;> rfl
  | cons b bytes ih =>
    rw [readDelta] at h
    split at h
    · cases h
      rfl
    · split at h
      · cases h
      · exact ih h

/-! ## Reading a row of deltas -/

/-- The sums of a start and ever more of the numbers. -/
def runningSums : (start : Nat) → List Nat → List Nat
  | _, [] => []
  | start, n :: rest => (start + n) :: runningSums (start + n) rest

/-- The ordinals that deltas reach from a start. -/
def reached (start : Nat) (ds : List Delta) : List Nat := runningSums start (ds.map Delta.value)

/-- The bytes of deltas that stand one behind the other. -/
def row (ds : List Delta) : Bytes := ds.flatMap Delta.bytes

@[simp] theorem reached_nil (start : Nat) : reached start [] = [] := rfl

@[simp] theorem reached_cons (start : Nat) (d : Delta) (ds : List Delta) :
    reached start (d :: ds) = (start + d.value) :: reached (start + d.value) ds := rfl

@[simp] theorem row_nil : row [] = [] := rfl

@[simp] theorem row_cons (d : Delta) (ds : List Delta) : row (d :: ds) = d.bytes ++ row ds :=
  List.flatMap_cons

/-- A blob is cut into deltas in one way at most. -/
theorem row_injective {ds ds' : List Delta} (h : row ds = row ds') : ds = ds' := by
  induction ds generalizing ds' with
  | nil =>
    cases ds' with
    | nil => rfl
    | cons d' ds' => exact absurd (List.append_eq_nil_iff.1 h.symm).1 d'.bytes_ne_nil
  | cons d ds ih =>
    cases ds' with
    | nil => exact absurd (List.append_eq_nil_iff.1 h).1 d.bytes_ne_nil
    | cons d' ds' =>
      rw [row_cons, row_cons] at h
      -- The reader takes the same first delta from the same bytes.
      have hread := readDelta_bytes d 0 (row ds)
      rw [h, readDelta_bytes] at hread
      simp only [Except.ok.injEq, Prod.mk.injEq] at hread
      obtain ⟨hbytes, hrest⟩ := List.append_inj' h (congrArg List.length hread.2.2).symm
      rw [Delta.ext_bytes hbytes, ih hrest]

/-- The deltas ascend from the ordinal before them, if there is one, to no more than the largest. -/
structure Ascend (last : Option Nat) (ds : List Delta) : Prop where
  /-- Every ordinal that is reached is larger than the one before it. -/
  grows : (last.toList ++ reached (last.getD 0) ds).IsChain (· < ·)
  /-- No ordinal that is reached is too large. -/
  fits : ∀ n ∈ reached (last.getD 0) ds, n ≤ Ordinal.largest

theorem ascend_nil (last : Option Nat) : Ascend last [] where
  grows := by cases last <;> simp
  fits n hn := absurd hn List.not_mem_nil

theorem ascend_cons {last : Option Nat} {d : Delta} {ds : List Delta} :
    Ascend last (d :: ds) ↔
      (∀ m, last = some m → m < last.getD 0 + d.value) ∧
        last.getD 0 + d.value ≤ Ordinal.largest ∧ Ascend (some (last.getD 0 + d.value)) ds := by
  have hchain : ∀ n ns, (last.toList ++ n :: ns).IsChain (· < ·) ↔
      (∀ m, last = some m → m < n) ∧ (n :: ns).IsChain (· < ·) := by
    intro n ns
    cases last <;> simp
  constructor
  · rintro ⟨hgrows, hfits⟩
    obtain ⟨hfirst, hfits⟩ := List.forall_mem_cons.1 hfits
    obtain ⟨hlast, hgrows⟩ := (hchain _ _).1 hgrows
    exact ⟨hlast, hfirst, hgrows, hfits⟩
  · rintro ⟨hlast, hfirst, hgrows, hfits⟩
    exact ⟨(hchain _ _).2 ⟨hlast, hgrows⟩, List.forall_mem_cons.2 ⟨hfirst, hfits⟩⟩

namespace Decoder

/-- The next ordinal is reached by one delta, which is not zero unless it is the first. -/
theorem readOrdinal_eq_ok_iff {r r' : Decoder} {n : Nat} :
    r.readOrdinal = .ok (n, r') ↔
      ∃ d : Delta, r.rest = d.bytes ++ r'.rest ∧ n = r.last.getD 0 + d.value ∧
        (∀ m, r.last = some m → m < n) ∧ n ≤ Ordinal.largest ∧
        r'.position = r.position + d.bytes.length ∧ r'.last = some n := by
  have hzero : ∀ v, (r.last.isSome && v = 0) = false ↔
      ∀ m, r.last = some m → m < r.last.getD 0 + v := by
    intro v
    cases r.last with
    | none => simp
    | some m => simp [Nat.pos_iff_ne_zero]
  unfold readOrdinal
  constructor
  · intro h
    split at h
    · cases h
    · rename_i v p rest hread
      obtain ⟨d, hbytes, rfl, rfl⟩ := readDelta_eq_ok_iff.1 hread
      split at h
      · cases h
      · rename_i hgrows
        dsimp only at h
        split at h
        · cases h
        · rename_i hfits
          cases h
          rw [Bool.not_eq_true, hzero] at hgrows
          exact ⟨d, hbytes, rfl, hgrows, Nat.not_lt.1 hfits, rfl, rfl⟩
  · rintro ⟨d, hbytes, rfl, hgrows, hfits, hposition, hlast⟩
    rw [← hzero] at hgrows
    obtain ⟨rest, position, last⟩ := r'
    obtain rfl : position = r.position + d.bytes.length := hposition
    obtain rfl : last = some (r.last.getD 0 + d.value) := hlast
    rw [readDelta_eq_ok_iff.2 ⟨d, hbytes, rfl, rfl⟩]
    simp only [hgrows, Nat.not_lt.2 hfits, if_false, Bool.false_eq_true]

theorem all_of_rest_nil {r : Decoder} (h : r.rest = []) : r.all = .ok [] := by
  have hnext : r.next = (none, r) := by simp only [next, h]
  rw [all.eq_def, hnext]

theorem all_of_readOrdinal_ok {r r' : Decoder} {n : Nat} (hne : r.rest ≠ [])
    (h : r.readOrdinal = .ok (n, r')) : r.all = r'.all.map (Int32.ofNat n :: ·) := by
  obtain ⟨b, rest, hrest⟩ := List.exists_cons_of_ne_nil hne
  have hnext : r.next = (some (.ok (Int32.ofNat n)), r') := by simp only [next, hrest, h]
  rw [all.eq_def, hnext]
  cases hall : r'.all with
  | error fault => simp only [hall, Except.map]
  | ok os => simp only [hall, Except.map]

theorem all_of_readOrdinal_error {r : Decoder} {fault : FormatFault} (hne : r.rest ≠ [])
    (h : r.readOrdinal = .error fault) : r.all = .error fault := by
  obtain ⟨b, rest, hrest⟩ := List.exists_cons_of_ne_nil hne
  have hnext : r.next = (some (.error fault), { r with rest := [] }) := by
    simp only [next, hrest, h]
  rw [all.eq_def, hnext]

/-- Deltas that ascend are read to the end. -/
theorem all_of_ascend {ds : List Delta} :
    ∀ {r : Decoder}, r.rest = row ds → Ascend r.last ds →
      r.all = .ok ((reached (r.last.getD 0) ds).map Int32.ofNat) := by
  induction ds with
  | nil =>
    intro r hrest _
    exact all_of_rest_nil hrest
  | cons d ds ih =>
    intro r hrest hascend
    obtain ⟨hgrows, hfits, hascend⟩ := ascend_cons.1 hascend
    rw [row_cons] at hrest
    have hne : r.rest ≠ [] := by
      rw [hrest]
      exact List.append_ne_nil_of_left_ne_nil d.bytes_ne_nil _
    let r' : Decoder := ⟨row ds, r.position + d.bytes.length, some (r.last.getD 0 + d.value)⟩
    have hread : r.readOrdinal = .ok (r.last.getD 0 + d.value, r') :=
      readOrdinal_eq_ok_iff.2 ⟨d, hrest, rfl, hgrows, hfits, rfl, rfl⟩
    rw [all_of_readOrdinal_ok hne hread, ih rfl hascend]
    rfl

/-- Whatever is read to the end are deltas that ascend. -/
theorem exists_of_all {r : Decoder} {os : List Ordinal} (h : r.all = .ok os) :
    ∃ ds, r.rest = row ds ∧ Ascend r.last ds ∧
      os = (reached (r.last.getD 0) ds).map Int32.ofNat := by
  induction hlength : r.rest.length using Nat.strongRecOn generalizing r os with
  | ind k ih =>
    by_cases hne : r.rest = []
    · rw [all_of_rest_nil hne] at h
      cases h
      exact ⟨[], hne, ascend_nil _, rfl⟩
    · cases hread : r.readOrdinal with
      | error fault =>
        rw [all_of_readOrdinal_error hne hread] at h
        cases h
      | ok read =>
        obtain ⟨n, r'⟩ := read
        rw [all_of_readOrdinal_ok hne hread] at h
        obtain ⟨d, hrest, hn, hgrows, hfits, _, hlast⟩ := readOrdinal_eq_ok_iff.1 hread
        cases hall : r'.all with
        | error fault =>
          rw [hall] at h
          cases h
        | ok os' =>
          rw [hall] at h
          cases h
          have hshort : r'.rest.length < k := by
            have hpositive := List.length_pos_iff.2 d.bytes_ne_nil
            rw [← hlength, hrest, List.length_append]
            omega
          obtain ⟨ds, hrest', hascend, hos⟩ := ih _ hshort hall rfl
          rw [hlast] at hascend hos
          subst hn
          refine ⟨d :: ds, ?_, ascend_cons.2 ⟨hgrows, hfits, hascend⟩, ?_⟩
          · rw [hrest, hrest', row_cons]
          · rw [hos, reached_cons]
            rfl

theorem element_of_readOrdinal_error {r : Decoder} {fault : FormatFault}
    (h : r.readOrdinal = .error fault) : fault.element = "ordinal set" := by
  unfold readOrdinal at h
  split at h
  · rename_i fault' hread
    cases h
    exact element_of_readDelta_error hread
  · split at h
    · cases h
      rfl
    · dsimp only at h
      split at h <;> cases h
      rfl

/-- Whatever the reader reports is a fault of an ordinal set. -/
theorem element_of_all_error {r : Decoder} {fault : FormatFault} (h : r.all = .error fault) :
    fault.element = "ordinal set" := by
  fun_induction all r generalizing fault with
  | case1 => cases h
  | case2 r fault' r' hnext =>
    cases h
    unfold next at hnext
    split at hnext
    · cases hnext
    · split at hnext
      · rename_i fault'' hread
        cases hnext
        exact element_of_readOrdinal_error hread
      · cases hnext
  | case3 r o r' hnext fault' hall ih =>
    cases h
    exact ih hall
  | case4 => cases h

end Decoder

/-! ## Whole blobs -/

theorem isChain_reached_iff (start : Nat) (ds : List Delta) :
    (start :: reached start ds).IsChain (· < ·) ↔ ∀ d ∈ ds, d.value ≠ 0 := by
  induction ds generalizing start with
  | nil => simp
  | cons d ds ih =>
    rw [reached_cons, List.isChain_cons_cons, ih, List.forall_mem_cons, Nat.lt_add_right_iff_pos,
      Nat.pos_iff_ne_zero]

/-- The deltas of a set: none behind the first is zero, and none leads beyond the largest ordinal.
-/
def AreOfSet (ds : List Delta) : Prop :=
  (∀ d ∈ ds.tail, d.value ≠ 0) ∧ ∀ n ∈ runningSums 0 (ds.map Delta.value), n ≤ Ordinal.largest

theorem ascend_none_iff {ds : List Delta} : Ascend none ds ↔ AreOfSet ds := by
  have hgrows : (reached 0 ds).IsChain (· < ·) ↔ ∀ d ∈ ds.tail, d.value ≠ 0 := by
    cases ds with
    | nil => simp
    | cons d ds => exact isChain_reached_iff _ ds
  rw [AreOfSet, ← hgrows]
  exact ⟨fun h => ⟨h.grows, h.fits⟩, fun h => ⟨h.1, h.2⟩⟩

theorem toInt_ofNat_of_le {n : Nat} (h : n ≤ Ordinal.largest) : (Int32.ofNat n).toInt = n := by
  rw [Ordinal.largest] at h
  exact Int32.toInt_ofNat_of_lt (by omega)

/-- Numbers that are not too large are the values of their ordinals. -/
theorem eq_map_ofNat_iff {os : List Ordinal} {ns : List Nat} (h : ∀ n ∈ ns, n ≤ Ordinal.largest) :
    os = ns.map Int32.ofNat ↔ os.map Int32.toInt = ns.map Int.ofNat := by
  have hvalues : (ns.map Int32.ofNat).map Int32.toInt = ns.map Int.ofNat := by
    rw [List.map_map]
    exact List.map_congr_left fun n hn => toInt_ofNat_of_le (h n hn)
  rw [← hvalues]
  exact (List.map_injective_iff.2 fun a b => Int32.toInt_inj.1).eq_iff.symm

theorem decode_eq_ok_iff {bytes : Bytes} {os : List Ordinal} :
    decode bytes = .ok os ↔
      ∃ ds, bytes = row ds ∧ Ascend none ds ∧ os = (reached 0 ds).map Int32.ofNat := by
  constructor
  · exact Decoder.exists_of_all
  · rintro ⟨ds, hrow, hascend, rfl⟩
    exact Decoder.all_of_ascend (r := ⟨bytes, 0, none⟩) hrow hascend

/-- What is read ascends, and none of it is negative. -/
theorem pairwise_of_decode {bytes : Bytes} {os : List Ordinal} (h : decode bytes = .ok os) :
    os.Pairwise (· < ·) ∧ ∀ o ∈ os, 0 ≤ o := by
  obtain ⟨ds, _, ⟨hgrows, hfits⟩, hos⟩ := decode_eq_ok_iff.1 h
  have hvalues := (eq_map_ofNat_iff hfits).1 hos
  constructor
  · have hascending : (os.map Int32.toInt).Pairwise (· < ·) := by
      rw [hvalues, List.pairwise_map]
      exact (List.isChain_iff_pairwise.1 hgrows).imp fun hlt => Int.ofNat_lt.2 hlt
    exact (List.pairwise_map.1 hascending).imp fun hlt => Int32.lt_iff_toInt_lt.2 hlt
  · intro o ho
    have hvalue : o.toInt ∈ (reached 0 ds).map Int.ofNat := hvalues ▸ List.mem_map_of_mem ho
    obtain ⟨n, _, hn⟩ := List.mem_map.1 hvalue
    rw [Int32.le_iff_toInt_le, Int32.toInt_zero, ← hn]
    exact Int.natCast_nonneg n

/-- Which blobs are read, and what is read from them.

A blob is read if it is a row of deltas of which none behind the first is zero and no sum is larger
than the largest ordinal, and the ordinals that are read are these sums.  So they ascend, and none
is negative.  A row of deltas can be cut into them in one way only.  The reader has an answer for
every blob and never leaves the range of its words, and what it says of all other blobs is that they
are no ordinal sets. -/
theorem decode_iff_ascending_deltas (bytes : Bytes) :
    Words.decode? bytes = some (decode bytes) ∧
    (∀ os, decode bytes = .ok os ↔ ∃ ds : List Delta,
      bytes = ds.flatMap Delta.bytes ∧ AreOfSet ds ∧
      os.map Int32.toInt = (runningSums 0 (ds.map Delta.value)).map Int.ofNat) ∧
    (∀ os, decode bytes = .ok os → os.Pairwise (· < ·) ∧ ∀ o ∈ os, 0 ≤ o) ∧
    ((¬ ∃ ds : List Delta, bytes = ds.flatMap Delta.bytes ∧ AreOfSet ds) →
      ∃ fault, decode bytes = .error fault ∧ fault.element = "ordinal set") ∧
    ∀ ds ds' : List Delta,
      bytes = ds.flatMap Delta.bytes → bytes = ds'.flatMap Delta.bytes → ds = ds' := by
  refine ⟨Words.decode?_eq bytes, fun os => ?_, fun os => pairwise_of_decode, fun h => ?_,
    fun ds ds' h h' => row_injective (h.symm.trans h')⟩
  · rw [decode_eq_ok_iff]
    refine exists_congr fun ds => and_congr_right fun _ => ?_
    rw [ascend_none_iff]
    exact and_congr_right fun hset => eq_map_ofNat_iff hset.2
  · cases hread : decode bytes with
    | error fault => exact ⟨fault, rfl, Decoder.element_of_all_error hread⟩
    | ok os =>
      obtain ⟨ds, hrow, hascend, _⟩ := decode_eq_ok_iff.1 hread
      exact absurd ⟨ds, hrow, ascend_none_iff.1 hascend⟩ h

end FacetIndex.OrdinalSet
