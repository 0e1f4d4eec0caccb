/-
  Proofs/OrdinalCanonical.lean --- the shortest form of an ordinal set.

  WHAT THIS FILE IS FOR.  A delta may start with padding, groups that are zero, so
  that several blobs hold the same ordinals.  What the writer makes is the one
  without padding.

  WHAT IS PROVED.

      OrdinalSet.Delta.writeDelta_value
          the writer makes a delta without padding from its value
      OrdinalSet.Delta.length_writeDelta_value_lt
          and something shorter from the value of a padded one
      OrdinalSet.shortest_eq_row_iff
          so a row of deltas is what is written for it exactly if none is padded
      OrdinalSet.encode_shortest_of_decode
          whatever is read can be written again; the same is read from what is
          written, and no other blob from which it is read is as short

  WHAT IS NOT SAID.  The reader does not refuse padded blobs, and nothing here says
  that it should: a blob is not known by its ordinals.
-/
import FacetIndex.Proofs.OrdinalGrammar

set_option autoImplicit false

namespace FacetIndex.OrdinalSet

/-! ## One delta -/

/-- A byte that is continued is the continuation bit and its group. -/
theorem ofNat_group_of_continued {b : UInt8} (h : b &&& 0x80 ≠ 0) :
    UInt8.ofNat (128 + b.toNat % 128) = b := by
  have hlarge := mt (Words.and_continuation_eq_zero_iff b).2 h
  rw [UInt8.lt_iff_toNat_lt, Nat.not_lt] at hlarge
  have hb := b.toNat_lt
  have hbit : (128 : UInt8).toNat = 128 := rfl
  have hvalue : 128 + b.toNat % 128 = b.toNat := by omega
  rw [hvalue, UInt8.ofNat_toNat]

/-- Bytes that are continued are written again from their number and their value. -/
theorem writeLeading_groupsValue (leading : Bytes) (h : ∀ b ∈ leading, b &&& 0x80 ≠ 0) :
    writeLeading leading.length (groupsValue leading) = leading := by
  induction leading using List.reverseRecOn with
  | nil => rfl
  | append_singleton leading b ih =>
    obtain ⟨hleading, hb⟩ := List.forall_mem_append.1 h
    have hgroup : b.toNat % 128 < 128 := Nat.mod_lt _ (by decide)
    have hhigh : (128 * groupsValue leading + b.toNat % 128) / 128 = groupsValue leading := by omega
    have hlow : (128 * groupsValue leading + b.toNat % 128) % 128 = b.toNat % 128 := by omega
    rw [List.length_append, List.length_singleton, groupsValue_concat, writeLeading, hhigh, hlow,
      ih hleading, ofNat_group_of_continued (hb b (List.mem_singleton_self b))]

/-- Fewer groups are needed for a number that has room in them. -/
theorem leadingGroups_le {n k : Nat} (h : n < 128 ^ (k + 1)) : leadingGroups n ≤ k := by
  unfold leadingGroups
  obtain rfl | rfl | rfl | rfl | hk : k = 0 ∨ k = 1 ∨ k = 2 ∨ k = 3 ∨ 4 ≤ k := by omega
  all_goals (repeat' split) <;> omega

namespace Delta

variable (d : Delta)

/-- The first byte of a delta is a group that is zero. -/
def Padded : Prop := d.bytes.head? = some 0x80

theorem value_eq : d.value = 128 * groupsValue d.leading + d.last.toNat := by
  have hsmall := (Words.and_continuation_eq_zero_iff d.last).1 d.last_ends
  rw [value, bytes, groupsValue_concat, Words.toNat_mod_of_lt hsmall]

/-- A delta is its value written with as many groups. -/
theorem bytes_eq_writeLeading :
    d.bytes = writeLeading d.leading.length (d.value / 128) ++ [UInt8.ofNat (d.value % 128)] := by
  have hsmall := (Words.and_continuation_eq_zero_iff d.last).1 d.last_ends
  have hlast : d.last.toNat < 128 := UInt8.lt_iff_toNat_lt.1 hsmall
  have hhigh : d.value / 128 = groupsValue d.leading := by
    rw [d.value_eq]
    omega
  have hlow : d.value % 128 = d.last.toNat := by
    rw [d.value_eq]
    omega
  rw [hhigh, hlow, writeLeading_groupsValue _ d.leading_continued, UInt8.ofNat_toNat]
  rfl

theorem value_lt : d.value < 128 ^ (d.leading.length + 1) := by
  rw [← d.length_bytes]
  exact groupsValue_lt d.bytes

/-- A delta without padding has the fewest groups. -/
theorem leadingGroups_value (h : ¬ d.Padded) : leadingGroups d.value = d.leading.length := by
  have hvalue := d.value_lt
  cases hleading : d.leading with
  | nil =>
    rw [hleading] at hvalue
    exact Nat.le_zero.1 (leadingGroups_le hvalue)
  | cons b leading =>
    have hroom := d.length_lt
    rw [hleading, List.length_cons] at hvalue hroom
    rw [maxGroups] at hroom
    have hbytes : d.bytes = b :: (leading ++ [d.last]) := by rw [bytes, hleading, List.cons_append]
    have hb : b &&& 0x80 ≠ 0 := d.leading_continued b (hleading ▸ List.mem_cons_self)
    have hgroup : 1 ≤ b.toNat % 128 := by
      rw [Nat.one_le_iff_ne_zero]
      intro hzero
      have hpad := ofNat_group_of_continued hb
      rw [hzero] at hpad
      exact h (by rw [Padded, hbytes, List.head?_cons, ← hpad]; rfl)
    have hlow : 128 ^ (leading.length + 1) ≤ d.value := by
      rw [value, hbytes, groupsValue_cons, List.length_append, List.length_singleton]
      exact Nat.le_trans (Nat.le_mul_of_pos_right _ hgroup) (Nat.le_add_right _ _)
    exact Words.leadingGroups_eq_succ (by omega) hlow hvalue

/-- A delta with padding has more groups than its value needs. -/
theorem leadingGroups_value_lt (h : d.Padded) : leadingGroups d.value < d.leading.length := by
  have hlast := d.last_ends
  cases hleading : d.leading with
  | nil =>
    rw [Padded, bytes, hleading, List.nil_append, List.head?_cons, Option.some.injEq] at h
    rw [h] at hlast
    exact absurd hlast (by decide)
  | cons b leading =>
    have hbytes : d.bytes = b :: (leading ++ [d.last]) := by rw [bytes, hleading, List.cons_append]
    rw [Padded, hbytes, List.head?_cons, Option.some.injEq] at h
    have hvalue : d.value = groupsValue (leading ++ [d.last]) := by
      rw [value, hbytes, groupsValue_cons, h]
      exact Nat.zero_add _
    have hlt := groupsValue_lt (leading ++ [d.last])
    rw [← hvalue, List.length_append, List.length_singleton] at hlt
    exact Nat.lt_succ_of_le (leadingGroups_le hlt)

/-- The writer makes the delta of its value, unless the delta has padding. -/
theorem writeDelta_value (h : ¬ d.Padded) : writeDelta d.value = d.bytes := by
  rw [writeDelta, d.leadingGroups_value h, ← bytes_eq_writeLeading]

/-- Of a delta with padding the writer makes a shorter one. -/
theorem length_writeDelta_value_lt (h : d.Padded) :
    (writeDelta d.value).length < d.bytes.length := by
  have hlt := d.leadingGroups_value_lt h
  rw [length_writeDelta, length_bytes]
  omega

end Delta

/-! ## Whole blobs -/

/-- The deltas once more, each in the fewest groups. -/
def shortest (ds : List Delta) : Bytes := ds.flatMap fun d => writeDelta d.value

/-- The writer makes the same deltas again, in the fewest groups. -/
theorem writeDeltas_reached (start : Nat) (ds : List Delta) :
    writeDeltas start (reached start ds) = shortest ds := by
  induction ds generalizing start with
  | nil => rfl
  | cons d ds ih =>
    rw [reached_cons, writeDeltas, ih, Nat.add_sub_cancel_left]
    rfl

theorem length_shortest_le (ds : List Delta) : (shortest ds).length ≤ (row ds).length := by
  induction ds with
  | nil => exact Nat.le_refl 0
  | cons d ds ih =>
    have hd : (writeDelta d.value).length ≤ d.bytes.length := by
      by_cases hpad : d.Padded
      · exact Nat.le_of_lt (d.length_writeDelta_value_lt hpad)
      · rw [d.writeDelta_value hpad]
    rw [shortest, List.flatMap_cons, row_cons, List.length_append, List.length_append]
    exact Nat.add_le_add hd ih

theorem shortest_eq_row {ds : List Delta} (h : ∀ d ∈ ds, ¬ d.Padded) : shortest ds = row ds :=
  List.flatMap_congr fun d hd => d.writeDelta_value (h d hd)

/-- With padding anywhere a blob is longer. -/
theorem length_shortest_lt {ds : List Delta} (h : ∃ d ∈ ds, d.Padded) :
    (shortest ds).length < (row ds).length := by
  obtain ⟨d, hd, hpad⟩ := h
  obtain ⟨before, after, rfl⟩ := List.append_of_mem hd
  have hd := d.length_writeDelta_value_lt hpad
  have hbefore := length_shortest_le before
  have hafter := length_shortest_le after
  simp only [shortest, row, List.flatMap_append, List.flatMap_cons, List.length_append] at *
  omega

theorem shortest_eq_row_iff (ds : List Delta) : shortest ds = row ds ↔ ∀ d ∈ ds, ¬ d.Padded := by
  refine ⟨fun h d hd hpad => ?_, shortest_eq_row⟩
  have hlt := length_shortest_lt ⟨d, hd, hpad⟩
  rw [h] at hlt
  exact Nat.lt_irrefl _ hlt

/-- Ordinals that ascend are their own distinct ordinals. -/
theorem distinct_of_pairwise {os : List Ordinal} (h : os.Pairwise (· < ·)) : distinct os = os :=
  (pairwise_distinct os).eq_of_mem_iff h fun _ => mem_distinct

/-- The ordinals that deltas reach are written as these deltas in the fewest groups. -/
theorem encode_of_ascend {ds : List Delta} {os : List Ordinal} (hascend : Ascend none ds)
    (hos : os = (reached 0 ds).map Int32.ofNat) : encode os = .ok (shortest ds) := by
  obtain ⟨hpairwise, hnonneg⟩ := pairwise_of_decode (decode_eq_ok_iff.2 ⟨ds, rfl, hascend, hos⟩)
  have hvalues : os.map (·.toInt.toNat) = reached 0 ds := by
    have hints := (eq_map_ofNat_iff hascend.fits).1 hos
    have hnats := congrArg (List.map Int.toNat) hints
    rw [List.map_map, List.map_map] at hnats
    exact hnats.trans (List.map_id _)
  rw [encode_eq_blob hnonneg, blob, distinct_of_pairwise hpairwise, hvalues, writeDeltas_reached]

/-- Whatever is read can be written again.  The same is read from what is written, and no other blob
from which it is read is as short.  A blob that can be read is what is written exactly if none of
its deltas starts with a group that is zero. -/
theorem encode_shortest_of_decode {bytes : Bytes} {os : List Ordinal} (h : decode bytes = .ok os) :
    ∃ canonical, encode os = .ok canonical ∧ decode canonical = .ok os ∧
      canonical.length ≤ bytes.length ∧
      (canonical.length = bytes.length → canonical = bytes) ∧
      (∃ ds : List Delta, bytes = ds.flatMap Delta.bytes) ∧
      ∀ ds : List Delta, bytes = ds.flatMap Delta.bytes →
        (canonical = bytes ↔ ∀ d ∈ ds, d.bytes.head? ≠ some 0x80) := by
  obtain ⟨ds, hrow, hascend, hos⟩ := decode_eq_ok_iff.1 h
  have hnonneg := (pairwise_of_decode h).2
  have hencode := encode_of_ascend hascend hos
  have hsame : shortest ds = bytes ↔ ∀ d ∈ ds, ¬ d.Padded := by rw [hrow, shortest_eq_row_iff]
  refine ⟨shortest ds, hencode, ?_, ?_, fun hlength => ?_, ⟨ds, hrow⟩, fun ds' hrow' => ?_⟩
  · have hblob := (encode_eq_blob hnonneg).symm.trans hencode
    rw [← Except.ok.inj hblob, decode_blob hnonneg,
      distinct_of_pairwise (pairwise_of_decode h).1]
  · rw [hrow]
    exact length_shortest_le ds
  · refine hsame.2 fun d hd hpad => ?_
    have hlt := length_shortest_lt ⟨d, hd, hpad⟩
    rw [hlength, hrow] at hlt
    exact Nat.lt_irrefl _ hlt
  · rw [row_injective (hrow'.symm.trans hrow)]
    exact hsame

/-- The ordinals 5 and 133, with a group too many in the first delta. -/
def paddedBlob : Bytes := [0x80, 0x05, 0x81, 0x00]

/-- Without the padding the blob is shorter and holds the same. -/
theorem encode_shortest_of_decode_paddedBlob :
    decode paddedBlob = .ok [5, 133] ∧ encode [5, 133] = .ok [0x05, 0x81, 0x00] ∧
      decode [0x05, 0x81, 0x00] = .ok [5, 133] ∧
      ([0x05, 0x81, 0x00] : Bytes).length ≤ paddedBlob.length := by
  have hread : decode paddedBlob = .ok [5, 133] := by cbv
  have hform : encode [5, 133] = .ok [0x05, 0x81, 0x00] := by cbv
  obtain ⟨canonical, hencode, hagain, hlength, _⟩ := encode_shortest_of_decode hread
  obtain rfl : canonical = [0x05, 0x81, 0x00] := Except.ok.inj (hencode.symm.trans hform)
  exact ⟨hread, hform, hagain, hlength⟩

end FacetIndex.OrdinalSet
