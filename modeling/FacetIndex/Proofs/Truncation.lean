/-
  Proofs/Truncation.lean --- damaged ordinal sets.

  WHAT THIS FILE IS FOR.  Whatever the bytes of a blob are, a cursor gives ordinals
  that ascend, then a fault if there is one, and nothing from then on; reading the
  whole blob at once succeeds if no fault comes.  When a blob is cut short, no
  ordinal is made up from what is left.

  HOW IT GOES.  `OrdinalSet.Decoder.Reads` is what a reader meets to the end, as a
  relation with one case for each way a step ends.  Every reader has one
  (`OrdinalSet.Decoder.exists_reads`), and a cursor's answers follow from it
  (`OrdinalSet.Cursor.answers_of_reads`).

  WHAT IS PROVED.

      OrdinalSet.Decoder.reads_row
                               a row of deltas with something behind it
      OrdinalSet.answers_of_cut
                               what a cursor says of a blob that was cut: the
                               ordinals whose deltas are whole come as they were
                               written, and a delta that was cut is a fault
      OrdinalSet.answers_ascend_then_stop
                               both, for any bytes and for any cut

  WHAT IS NOT SAID.  Other damage than a cut, beyond what holds of any bytes: a
  changed byte may lead to other ordinals.
-/
import FacetIndex.OrdinalSet.Cursor
import FacetIndex.Proofs.OrdinalGrammar

set_option autoImplicit false

namespace FacetIndex.OrdinalSet

/-! ## What a reader reads -/

namespace Decoder

/-- The reader reads these ordinals one after the other, and then it is at the end of its blob or
finds a fault. -/
inductive Reads : Decoder → List Nat → Option FormatFault → Prop where
  /-- Nothing is left. -/
  | ends {r : Decoder} (h : r.rest = []) : Reads r [] none
  /-- What is left does not begin with an ordinal. -/
  | fails {r : Decoder} {fault : FormatFault} (hne : r.rest ≠ [])
      (h : r.readOrdinal = .error fault) : Reads r [] (some fault)
  /-- An ordinal is read, and then others. -/
  | reads {r r' : Decoder} {n : Nat} {ns : List Nat} {fault? : Option FormatFault}
      (hne : r.rest ≠ []) (h : r.readOrdinal = .ok (n, r')) (hrest : Reads r' ns fault?) :
      Reads r (n :: ns) fault?

/-- A reader comes to an end, since each ordinal takes a byte at least. -/
theorem exists_reads (r : Decoder) : ∃ ns fault?, Reads r ns fault? := by
  induction hlength : r.rest.length using Nat.strongRecOn generalizing r with
  | ind k ih =>
    by_cases hne : r.rest = []
    · exact ⟨[], none, .ends hne⟩
    · cases hread : r.readOrdinal with
      | error fault => exact ⟨[], some fault, .fails hne hread⟩
      | ok read =>
        obtain ⟨n, r'⟩ := read
        obtain ⟨d, hrest, _⟩ := readOrdinal_eq_ok_iff.1 hread
        have hshort : r'.rest.length < k := by
          have hpositive := List.length_pos_iff.2 d.bytes_ne_nil
          rw [← hlength, hrest, List.length_append]
          omega
        obtain ⟨ns, fault?, hreads⟩ := ih _ hshort r' rfl
        exact ⟨n :: ns, fault?, .reads hne hread hreads⟩

variable {r : Decoder} {ns : List Nat} {fault? : Option FormatFault}

/-- Reading everything at once gives the ordinals if there is no fault, and else the fault. -/
theorem Reads.all_eq (h : Reads r ns fault?) :
    r.all = fault?.elim (.ok (ns.map Int32.ofNat)) .error := by
  induction h with
  | ends h => exact all_of_rest_nil h
  | fails hne h => exact all_of_readOrdinal_error hne h
  | @reads r r' n ns fault? hne h _ ih =>
    rw [all_of_readOrdinal_ok hne h, ih]
    cases fault? <;> rfl

/-- The ordinals ascend from the one that was read before, and none is too large. -/
theorem Reads.ascends (h : Reads r ns fault?) :
    (∀ m, r.last = some m → ∀ n ∈ ns, m < n) ∧ ns.Pairwise (· < ·) ∧
      ∀ n ∈ ns, n ≤ Ordinal.largest := by
  induction h with
  | ends h => simp
  | fails hne h => simp
  | @reads r r' n ns fault? hne h _ ih =>
    obtain ⟨d, _, _, hgrows, hfits, _, hlast⟩ := readOrdinal_eq_ok_iff.1 h
    obtain ⟨hfrom, hpairwise, hlargest⟩ := ih
    have hn : ∀ k ∈ ns, n < k := hfrom n hlast
    refine ⟨fun m hm => ?_, List.pairwise_cons.2 ⟨hn, hpairwise⟩,
      List.forall_mem_cons.2 ⟨hfits, hlargest⟩⟩
    exact List.forall_mem_cons.2 ⟨hgrows m hm, fun k hk => (hgrows m hm).trans (hn k hk)⟩

theorem Reads.element_eq {fault : FormatFault} (h : Reads r ns (some fault)) :
    fault.element = "ordinal set" :=
  element_of_all_error h.all_eq

end Decoder

/-! ## What a cursor says -/

/-- What is said to so many questions if these are the answers, and nothing comes behind them. -/
def replies {α : Type} (answers : List α) (count : Nat) : List (Option α) :=
  (List.range count).map (answers[·]?)

theorem replies_nil {α : Type} (count : Nat) :
    replies ([] : List α) count = List.replicate count none := by
  simp [replies]

theorem replies_cons {α : Type} (x : α) (answers : List α) (count : Nat) :
    replies (x :: answers) (count + 1) = some x :: replies answers count := by
  simp [replies, List.range_succ_eq_map]

namespace Cursor

variable {c : Cursor}

/-- A cursor that has nothing to say stays as it is. -/
theorem answers_of_next_none (h : c.next = (none, c)) (count : Nat) :
    c.answers count = List.replicate count none := by
  induction count with
  | zero => rfl
  | succ count ih => rw [answers, h, ih, List.replicate_succ]

theorem next_of_failed (h : c.failed = true) : c.next = (none, c) := by
  rw [next, h, Bool.true_or, if_pos rfl]

theorem next_of_rest_nil (h : c.reader.rest = []) : c.next = (none, c) := by
  have hend : c.bytes.length ≤ c.position := List.drop_eq_nil_iff.1 h
  rw [next, decide_eq_true hend, Bool.or_true, if_pos rfl]

section Open

variable (hopen : c.failed = false) (hne : c.reader.rest ≠ [])
include hopen hne

theorem not_stopped : ¬ (c.failed || c.bytes.length ≤ c.position) = true := by
  have hinside : ¬ c.bytes.length ≤ c.position := mt List.drop_eq_nil_iff.2 hne
  rw [hopen, decide_eq_false hinside]
  exact Bool.false_ne_true

theorem next_of_readOrdinal_error {fault : FormatFault} (h : c.reader.readOrdinal = .error fault) :
    c.next = (some (.error fault), { c with failed := true }) := by
  have hread : Decoder.readOrdinal { c with failed := true }.reader = .error fault := h
  rw [next, if_neg (not_stopped hopen hne)]
  dsimp only
  rw [hread]

/-- When an ordinal is read, the cursor stands where the reader of it stands, and is not marked. -/
theorem next_of_readOrdinal_ok {n : Nat} {r : Decoder} (h : c.reader.readOrdinal = .ok (n, r)) :
    ∃ c', c.next = (some (.ok (Int32.ofNat n)), c') ∧ c'.reader = r ∧ c'.failed = false := by
  have hread : Decoder.readOrdinal { c with failed := true }.reader = .ok (n, r) := h
  refine ⟨{ c with position := r.position, last := r.last }, ?_, ?_, hopen⟩
  · rw [next, if_neg (not_stopped hopen hne)]
    dsimp only
    rw [hread, hopen]
  · obtain ⟨d, hrest, _, _, _, hposition, _⟩ := Decoder.readOrdinal_eq_ok_iff.1 h
    have hdrop : c.bytes.drop r.position = r.rest := by
      have hrest : c.bytes.drop c.position = d.bytes ++ r.rest := hrest
      have hposition : r.position = c.position + d.bytes.length := hposition
      rw [hposition, ← List.drop_drop, hrest, List.drop_left]
    rw [reader, hdrop]

end Open

/-- A cursor gives what its reader reads, then the fault if there is one, and then nothing. -/
theorem answers_of_reads {r : Decoder} {ns : List Nat} {fault? : Option FormatFault}
    (h : r.Reads ns fault?) :
    ∀ {c : Cursor}, c.reader = r → c.failed = false → ∀ count, c.answers count =
      replies ((ns.map Int32.ofNat).map .ok ++ (fault?.map .error).toList) count := by
  induction h with
  | ends h =>
    rintro c rfl _ count
    rw [answers_of_next_none (next_of_rest_nil h)]
    exact (replies_nil count).symm
  | @fails r fault hne h =>
    rintro c rfl hopen count
    have hstep := next_of_readOrdinal_error hopen hne h
    cases count with
    | zero => rfl
    | succ count =>
      have hafter : Cursor.answers { c with failed := true } count = List.replicate count none :=
        answers_of_next_none (next_of_failed rfl) count
      rw [answers, hstep, hafter, ← replies_nil]
      exact (replies_cons _ _ count).symm
  | @reads r r' n ns fault? hne h _ ih =>
    rintro c rfl hopen count
    obtain ⟨c', hstep, hreader, hopen'⟩ := next_of_readOrdinal_ok hopen hne h
    cases count with
    | zero => rfl
    | succ count =>
      rw [answers, hstep, ih hreader hopen']
      exact (replies_cons _ _ count).symm

end Cursor

/-- The ordinals of a blob from its start up to a fault, if there is one. -/
theorem exists_answers (bytes : Bytes) :
    ∃ (os : List Ordinal) (fault? : Option FormatFault),
      (∀ count, Cursor.answers { bytes } count =
        replies (os.map .ok ++ (fault?.map .error).toList) count) ∧
      decode bytes = fault?.elim (.ok os) .error ∧
      os.Pairwise (· < ·) ∧ (∀ o ∈ os, 0 ≤ o) ∧
      ∀ fault, fault? = some fault → fault.element = "ordinal set" := by
  obtain ⟨ns, fault?, hreads⟩ := Decoder.exists_reads ⟨bytes, 0, none⟩
  obtain ⟨_, hpairwise, hlargest⟩ := hreads.ascends
  have hvalue : ∀ n ∈ ns, (Int32.ofNat n).toInt = n := fun n hn => toInt_ofNat_of_le (hlargest n hn)
  refine ⟨ns.map Int32.ofNat, fault?, Cursor.answers_of_reads hreads rfl rfl, hreads.all_eq,
    ?_, ?_, ?_⟩
  · refine List.pairwise_map.2 (hpairwise.imp_of_mem fun {m n} hm hn hlt => ?_)
    rw [Int32.lt_iff_toInt_lt, hvalue m hm, hvalue n hn]
    exact Int.ofNat_lt.2 hlt
  · intro o ho
    obtain ⟨n, hn, rfl⟩ := List.mem_map.1 ho
    rw [Int32.le_iff_toInt_le, Int32.toInt_zero, hvalue n hn]
    exact Int.natCast_nonneg n
  · rintro fault rfl
    exact hreads.element_eq

/-! ## Blobs that were cut short -/

/-- Bytes that are all continued end inside a delta. -/
theorem readDelta_of_continued {bytes : Bytes} :
    ∀ {position group value : Nat}, (∀ b ∈ bytes, b &&& 0x80 ≠ 0) →
      group + bytes.length < maxGroups →
      readDelta position group value bytes =
        .error (.truncatedDelta (position + bytes.length) (group + bytes.length)) := by
  induction bytes with
  | nil =>
    intro position group value _ hroom
    exact if_neg (Nat.ne_of_lt hroom)
  | cons b bytes ih =>
    intro position group value hcontinued hroom
    obtain ⟨hb, hbytes⟩ := List.forall_mem_cons.1 hcontinued
    rw [List.length_cons, ← Nat.add_assoc, Nat.add_right_comm] at hroom
    have hlarge : ¬ b < 128 := mt (Words.and_continuation_eq_zero_iff b).2 hb
    have hopen : ¬ group = maxGroups := by omega
    rw [readDelta, if_neg hopen, if_neg hlarge, ih hbytes hroom, List.length_cons,
      Nat.add_right_comm position, Nat.add_right_comm group]
    rfl

theorem Ascend.of_append {before after : List Delta} :
    ∀ {last : Option Nat}, Ascend last (before ++ after) → Ascend last before := by
  induction before with
  | nil => exact fun _ => ascend_nil _
  | cons d before ih =>
    intro last h
    obtain ⟨hgrows, hfits, hrest⟩ := ascend_cons.1 h
    exact ascend_cons.2 ⟨hgrows, hfits, ih hrest⟩

namespace Decoder

/-- Bytes at the start of a delta that are not the whole delta hold no ordinal. -/
theorem reads_of_prefix_leading {d : Delta} {tail : Bytes} (hne : tail ≠ [])
    (h : tail <+: d.leading) (position : Nat) (last : Option Nat) :
    Reads ⟨tail, position, last⟩ []
      (some (.truncatedDelta (position + tail.length) tail.length)) := by
  have hcontinued : ∀ b ∈ tail, b &&& 0x80 ≠ 0 := fun b hb =>
    d.leading_continued b (h.subset hb)
  have hroom : 0 + tail.length < maxGroups := by
    rw [Nat.zero_add]
    exact h.length_le.trans_lt d.length_lt
  refine .fails hne ?_
  have hread : readDelta position 0 0 tail =
      .error (.truncatedDelta (position + tail.length) (0 + tail.length)) :=
    readDelta_of_continued hcontinued hroom
  rw [readOrdinal, hread, Nat.zero_add]

/-- Deltas that ascend are read, and then what stands behind them decides. -/
theorem reads_row {before : List Delta} {tail : Bytes} {fault? : Option FormatFault} :
    ∀ {r : Decoder}, r.rest = row before ++ tail → Ascend r.last before →
      (∀ last, Reads ⟨tail, r.position + (row before).length, last⟩ [] fault?) →
      r.Reads (reached (r.last.getD 0) before) fault? := by
  induction before with
  | nil =>
    intro r hrest _ hstop
    have hstop := hstop r.last
    rw [row_nil, List.nil_append] at hrest
    rwa [row_nil, List.length_nil, Nat.add_zero, ← hrest] at hstop
  | cons d before ih =>
    intro r hrest hascend hstop
    obtain ⟨hgrows, hfits, hascend⟩ := ascend_cons.1 hascend
    rw [row_cons, List.append_assoc] at hrest
    have hne : r.rest ≠ [] := by
      rw [hrest]
      exact List.append_ne_nil_of_left_ne_nil d.bytes_ne_nil _
    let r' : Decoder :=
      ⟨row before ++ tail, r.position + d.bytes.length, some (r.last.getD 0 + d.value)⟩
    have hread : r.readOrdinal = .ok (r.last.getD 0 + d.value, r') :=
      readOrdinal_eq_ok_iff.2 ⟨d, hrest, rfl, hgrows, hfits, rfl, rfl⟩
    refine .reads hne hread (ih (r := r') rfl hascend fun last => ?_)
    rw [Nat.add_assoc, ← List.length_append, ← row_cons]
    exact hstop last

end Decoder

theorem row_append (before after : List Delta) : row (before ++ after) = row before ++ row after :=
  List.flatMap_append

/-- The number of deltas of a row that lie wholly within its first bytes. -/
def wholeWithin (ds : List Delta) (length : Nat) : Nat :=
  (runningSums 0 (ds.map (·.bytes.length))).countP (· ≤ length)

/-- So many bytes of a row end strictly inside one of its deltas. -/
def CutsInside (ds : List Delta) (length : Nat) : Prop :=
  ∃ before d after, ds = before ++ d :: after ∧
    (row before).length < length ∧ length < (row before).length + d.bytes.length

theorem le_of_mem_runningSums {n : Nat} {ns : List Nat} :
    ∀ {start : Nat}, n ∈ runningSums start ns → start ≤ n := by
  induction ns with
  | nil => exact fun h => absurd h List.not_mem_nil
  | cons k ns ih =>
    intro start h
    rcases List.mem_cons.1 h with rfl | h
    · exact Nat.le_add_right start k
    · exact (Nat.le_add_right start k).trans (ih h)

/-- If a row is cut within its next delta, the deltas before it are the whole ones. -/
theorem countP_runningSums {before after : List Delta} {length : Nat} :
    ∀ {start : Nat}, start + (row before).length ≤ length →
      (∀ d ∈ after.head?, length < start + (row before).length + d.bytes.length) →
      (runningSums start ((before ++ after).map (·.bytes.length))).countP (· ≤ length) =
        before.length := by
  induction before with
  | nil =>
    intro start _ hafter
    refine List.countP_eq_zero.2 fun n hn => ?_
    cases after with
    | nil => exact absurd hn List.not_mem_nil
    | cons d after =>
      have hlong : length < start + d.bytes.length := hafter d rfl
      have hle : start + d.bytes.length ≤ n := by
        rcases List.mem_cons.1 hn with rfl | hn
        · exact Nat.le_refl _
        · exact le_of_mem_runningSums hn
      rw [decide_eq_true_eq]
      omega
  | cons d before ih =>
    intro start hbefore hafter
    rw [row_cons, List.length_append, ← Nat.add_assoc] at hbefore hafter
    have hwhole : start + d.bytes.length ≤ length := by omega
    rw [List.cons_append, List.map_cons, runningSums, List.countP_cons, ih hbefore hafter,
      if_pos (decide_eq_true hwhole), List.length_cons]

theorem length_reached (start : Nat) (ds : List Delta) : (reached start ds).length = ds.length := by
  induction ds generalizing start with
  | nil => rfl
  | cons d ds ih => rw [reached_cons, List.length_cons, ih, List.length_cons]

theorem take_reached (before after : List Delta) (start : Nat) :
    (reached start (before ++ after)).take before.length = reached start before := by
  induction before generalizing start with
  | nil => rfl
  | cons d before ih =>
    rw [List.cons_append, reached_cons, List.length_cons, List.take_succ_cons, ih, reached_cons]

/-- The first bytes of a row that end inside a delta are whole deltas and continued bytes of that
one. -/
theorem exists_tail_of_cutsInside {ds : List Delta} {cut : Bytes} (hcut : cut <+: row ds)
    (hinside : CutsInside ds cut.length) :
    ∃ before d after tail, ds = before ++ d :: after ∧ cut = row before ++ tail ∧ tail ≠ [] ∧
      tail <+: d.leading := by
  obtain ⟨before, d, after, rfl, hbehind, hwithin⟩ := hinside
  rw [row_append] at hcut
  obtain ⟨tail, rfl⟩ : row before <+: cut :=
    List.prefix_of_prefix_length_le (List.prefix_append _ _) hcut hbehind.le
  rw [List.length_append] at hbehind hwithin
  rw [d.length_bytes] at hwithin
  rw [List.prefix_append_right_inj, row_cons, Delta.bytes, List.append_assoc] at hcut
  have htail : tail <+: d.leading :=
    List.prefix_of_prefix_length_le hcut (List.prefix_append _ _) (by omega)
  exact ⟨before, d, after, tail, rfl, rfl, List.length_pos_iff.1 (by omega), htail⟩

/-- The first bytes of a row that end inside no delta are whole deltas. -/
theorem exists_row_eq_of_not_cutsInside {ds : List Delta} :
    ∀ {length : Nat}, length ≤ (row ds).length → ¬ CutsInside ds length →
      ∃ before after, ds = before ++ after ∧ (row before).length = length := by
  induction ds with
  | nil =>
    intro length hle _
    exact ⟨[], [], rfl, (Nat.le_zero.1 hle).symm⟩
  | cons d ds ih =>
    intro length hle hinside
    rw [row_cons, List.length_append] at hle
    rcases Nat.eq_zero_or_pos length with rfl | hpos
    · exact ⟨[], d :: ds, rfl, rfl⟩
    · have hwhole : d.bytes.length ≤ length := by
        refine Nat.not_lt.1 fun hlt => hinside ⟨[], d, ds, rfl, hpos, ?_⟩
        rwa [row_nil, List.length_nil, Nat.zero_add]
      have hrest : ¬ CutsInside ds (length - d.bytes.length) := by
        rintro ⟨before, d', after, rfl, hbehind, hwithin⟩
        refine hinside ⟨d :: before, d', after, rfl, ?_, ?_⟩ <;>
          rw [row_cons, List.length_append] <;> omega
      obtain ⟨before, after, rfl, hlength⟩ := ih (by omega) hrest
      refine ⟨d :: before, after, rfl, ?_⟩
      rw [row_cons, List.length_append, hlength]
      omega

/-- What a cursor says on whole deltas and less than one delta behind them. -/
theorem answers_row_append {before after : List Delta} {tail : Bytes}
    {fault? : Option FormatFault} (hascend : Ascend none (before ++ after))
    (hafter : ∀ d ∈ after.head?, tail.length < d.bytes.length)
    (hstop : ∀ last, Decoder.Reads ⟨tail, (row before).length, last⟩ [] fault?) (count : Nat) :
    Cursor.answers { bytes := row before ++ tail } count =
      replies ((((reached 0 (before ++ after)).map Int32.ofNat).take
          (wholeWithin (before ++ after) (row before ++ tail).length)).map .ok
        ++ (fault?.map .error).toList) count := by
  have hwhole : wholeWithin (before ++ after) (row before ++ tail).length = before.length := by
    rw [wholeWithin, List.length_append]
    refine countP_runningSums ?_ fun d hd => ?_
    · omega
    · have hlong := hafter d hd
      omega
  have hreads : Decoder.Reads ⟨row before ++ tail, 0, none⟩ (reached 0 before) fault? :=
    Decoder.reads_row rfl hascend.of_append (by rwa [Nat.zero_add])
  rw [Cursor.answers_of_reads hreads rfl rfl, hwhole, ← List.map_take, take_reached]

/-- A blob that was cut short: the ordinals of its whole deltas are read, and then nothing, or a
fault if the cut went through a delta. -/
theorem answers_of_cut {ds : List Delta} {os : List Ordinal} (hascend : Ascend none ds)
    (hos : os = (reached 0 ds).map Int32.ofNat) {cut : Bytes} (hcut : cut <+: row ds) :
    (CutsInside ds cut.length → ∃ group, ∀ count, Cursor.answers { bytes := cut } count =
      replies ((os.take (wholeWithin ds cut.length)).map .ok
        ++ [.error (.truncatedDelta cut.length group)]) count) ∧
    (¬ CutsInside ds cut.length → ∀ count, Cursor.answers { bytes := cut } count =
      replies ((os.take (wholeWithin ds cut.length)).map .ok) count) := by
  subst hos
  constructor
  · intro hinside
    obtain ⟨before, d, after, tail, rfl, rfl, hne, htail⟩ := exists_tail_of_cutsInside hcut hinside
    have hstop := Decoder.reads_of_prefix_leading hne htail (row before).length
    have hafter : ∀ d' ∈ (d :: after).head?, tail.length < d'.bytes.length := by
      rintro d' ⟨⟩
      rw [d.length_bytes]
      exact Nat.lt_succ_of_le htail.length_le
    have hanswers := answers_row_append hascend hafter hstop
    rw [← List.length_append] at hanswers
    exact ⟨tail.length, hanswers⟩
  · intro hinside
    obtain ⟨before, after, rfl, hlength⟩ :=
      exists_row_eq_of_not_cutsInside hcut.length_le hinside
    have hrow : cut = row before ++ [] := by
      rw [List.prefix_iff_eq_take.1 hcut, row_append, ← hlength, List.take_left, List.append_nil]
    have hafter : ∀ d ∈ after.head?, ([] : Bytes).length < d.bytes.length := fun d _ =>
      List.length_pos_iff.2 d.bytes_ne_nil
    have hanswers := answers_row_append hascend hafter fun last => .ends rfl
    rw [← hrow] at hanswers
    intro count
    rw [hanswers]
    exact congrArg (replies · count) (List.append_nil _)

/-- What a cursor says, whether a blob is whole or was cut short.

On any bytes it gives ordinals that ascend, then at most one fault, and nothing from then on;
reading the whole blob succeeds with these ordinals if there is no fault, and only then.  When the
blob of a list of ordinals is cut, the first of the distinct ordinals are given, as many as there
are deltas that lie wholly before the cut, and behind them comes a fault exactly if the cut went
through a delta. -/
theorem answers_ascend_then_stop :
    (∀ bytes : Bytes, ∃ (ordinals : List Ordinal) (fault? : Option FormatFault),
      (∀ count, Cursor.answers { bytes } count =
        replies (ordinals.map .ok ++ (fault?.map .error).toList) count) ∧
      ordinals.Pairwise (· < ·) ∧ (∀ o ∈ ordinals, 0 ≤ o) ∧
      (∀ fault, fault? = some fault → fault.element = "ordinal set") ∧
      ∀ os, decode bytes = .ok os ↔ fault? = none ∧ os = ordinals) ∧
    ∀ os : List Ordinal, (∀ o ∈ os, 0 ≤ o) → ∃ (blob : Bytes) (ds : List Delta),
      encode os = .ok blob ∧ blob = ds.flatMap Delta.bytes ∧ ds.length = (distinct os).length ∧
      ∀ cut, cut <+: blob →
        let first := (distinct os).take (wholeWithin ds cut.length)
        (CutsInside ds cut.length → ∃ group, ∀ count, Cursor.answers { bytes := cut } count =
          replies (first.map .ok ++ [.error (.truncatedDelta cut.length group)]) count) ∧
        (¬ CutsInside ds cut.length → ∀ count, Cursor.answers { bytes := cut } count =
          replies (first.map .ok) count) := by
  constructor
  · intro bytes
    obtain ⟨ordinals, fault?, hanswers, hdecode, hpairwise, hnonneg, helement⟩ :=
      exists_answers bytes
    refine ⟨ordinals, fault?, hanswers, hpairwise, hnonneg, helement, fun os => ?_⟩
    rw [hdecode]
    cases fault? with
    | none => simp [eq_comm]
    | some fault => simp
  · intro os hos
    obtain ⟨ds, hrow, hascend, hordinals⟩ := decode_eq_ok_iff.1 (decode_blob hos)
    refine ⟨blob os, ds, encode_eq_blob hos, hrow, ?_, fun cut hcut => ?_⟩
    · rw [hordinals, List.length_map, length_reached]
    · exact answers_of_cut hascend hordinals (hrow ▸ hcut)

/-- A delta of one byte. -/
def shortDelta : Delta := ⟨[], 0x05, List.forall_mem_nil _, by decide, by decide⟩

/-- A delta of two bytes, which leads from 5 to 300. -/
def longDelta : Delta :=
  ⟨[0x82], 0x27, List.forall_mem_singleton.2 (by decide), by decide, by decide⟩

/-- Without its last byte the second delta is reported, and the first is read as before. -/
theorem answers_ascend_then_stop_cutDelta :
    (∀ o ∈ ([300, 5] : List Ordinal), 0 ≤ o) ∧ encode [300, 5] = .ok [0x05, 0x82, 0x27] ∧
      ([0x05, 0x82] : Bytes) <+: [0x05, 0x82, 0x27] ∧
      ∃ group, Cursor.answers { bytes := [0x05, 0x82] } 3 =
        [some (.ok 5), some (.error (.truncatedDelta 2 group)), none] := by
  have hos : ∀ o ∈ ([300, 5] : List Ordinal), 0 ≤ o := by simp
  have hform : encode [300, 5] = .ok [0x05, 0x82, 0x27] := by cbv
  have hcut : ([0x05, 0x82] : Bytes) <+: [0x05, 0x82, 0x27] := ⟨[0x27], rfl⟩
  have hordinals : distinct [300, 5] = [5, 300] := by cbv
  obtain ⟨_, ds, hencode, hrow, _, hanswers⟩ := answers_ascend_then_stop.2 _ hos
  obtain rfl := Except.ok.inj (hform.symm.trans hencode)
  obtain rfl : ds = [shortDelta, longDelta] := row_injective hrow.symm
  have hinside : CutsInside [shortDelta, longDelta] 2 :=
    ⟨[shortDelta], longDelta, [], rfl, by decide, by decide⟩
  obtain ⟨group, hgroup⟩ := (hanswers _ hcut).1 hinside
  rw [hordinals] at hgroup
  exact ⟨hos, hform, hcut, group, hgroup 3⟩

end FacetIndex.OrdinalSet
