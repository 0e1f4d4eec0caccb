/-
  Proofs/Hexadecimal.lean --- which texts are hexadecimal.

  WHAT THIS FILE IS FOR.  A text is hexadecimal if it consists of digits, two for
  each byte, and of blanks (`Hex.IsHexadecimal` of its `Hex.places`).  The reader
  works on bytes and pairs them by position after the blanks are dropped.

  WHAT IS PROVED.

      Hex.restyled_encode_iff   the texts that come from shown bytes by changing
                                the case of digits and putting in blanks are those
                                that are the same without blanks and in lower case
      Hex.decode_of_restyled    all of these are read as the bytes
      Hex.decode_eq_ok_iff      the bytes that are read from any text are shown by
                                its `Hex.digitsRead`
      Hex.accepted_texts        which texts are read, and what comes of the others
      Hex.accepted_texts_plus   a text with a plus sign that is read all the same

  A PLUS SIGN.  Reading is more lenient than the form of the text: a plus sign may
  stand in the first place of a byte, where it counts as a zero.  `Hex.firstDigit`
  and `Hex.digitsRead` say so.

  WHAT IS NOT SAID.  Which fault is reported for a text that is not read.
-/
import FacetIndex.Command.Inspect
import FacetIndex.Proofs.ByteOrder

set_option autoImplicit false

namespace FacetIndex.Hex

/-! ## Digits -/

/-- One of `0` to `9`, `a` to `f` and `A` to `F`. -/
def IsDigit (c : Char) : Prop :=
  '0' ≤ c ∧ c ≤ '9' ∨ 'a' ≤ c ∧ c ≤ 'f' ∨ 'A' ≤ c ∧ c ≤ 'F'

instance (c : Char) : Decidable (IsDigit c) := inferInstanceAs (Decidable (_ ∨ _ ∨ _))

theorem isDigit_iff_toNat {c : Char} :
    IsDigit c ↔ 48 ≤ c.toNat ∧ c.toNat ≤ 57 ∨ 97 ≤ c.toNat ∧ c.toNat ≤ 102 ∨
      65 ≤ c.toNat ∧ c.toNat ≤ 70 := by
  simp only [IsDigit, Char.le_def, UInt32.le_iff_toNat_le, Char.toNat_val]
  rfl

theorem toNat_digit {n : Nat} (h : n < 16) :
    (digit n).toNat = if n < 10 then 48 + n else 87 + n := by
  have hcode : ∀ {k : Nat}, k < 128 → (Char.ofNat k).toNat = k := by
    intro k hk
    rw [Char.toNat_ofNat, if_pos (Or.inl (by omega))]
  unfold digit
  split
  · exact hcode (by omega)
  · exact hcode (by omega)

theorem toNat_toLower (c : Char) :
    c.toLower.toNat = if 65 ≤ c.toNat ∧ c.toNat ≤ 90 then c.toNat + 32 else c.toNat := by
  have hcapital : (c.val ≥ 'A'.val ∧ c.val ≤ 'Z'.val) ↔ (65 ≤ c.toNat ∧ c.toNat ≤ 90) := by
    simp only [ge_iff_le, UInt32.le_iff_toNat_le, Char.toNat_val]
    rfl
  unfold Char.toLower
  split
  · rename_i h
    have hc := hcapital.1 h
    have hshift : ('a'.val - 'A'.val).toNat = 32 := rfl
    rw [if_pos hc, ← Char.toNat_val, UInt32.toNat_add, Char.toNat_val]
    omega
  · rename_i h
    rw [if_neg fun hc => h (hcapital.2 hc)]

/-- A digit of either case has the value of the digit in lower case, and nothing else has one. -/
theorem value?_eq_some_iff {c : Char} {n : Nat} :
    value? c.toNat = some n ↔ n < 16 ∧ c.toLower = digit n := by
  have hlower := toNat_toLower c
  rw [← Char.toNat_inj]
  constructor
  · intro h
    have hn : n < 16 := by
      unfold value? at h
      grind
    rw [toNat_digit hn, hlower]
    unfold value? at h
    grind
  · rintro ⟨hn, h⟩
    rw [toNat_digit hn, hlower] at h
    unfold value?
    grind

theorem isDigit_iff_value? {c : Char} : IsDigit c ↔ (value? c.toNat).isSome := by
  rw [isDigit_iff_toNat]
  unfold value?
  grind

theorem IsDigit.exists_digit {c : Char} (h : IsDigit c) : ∃ n < 16, c.toLower = digit n := by
  obtain ⟨n, hn⟩ := Option.isSome_iff_exists.1 (isDigit_iff_value?.1 h)
  exact ⟨n, value?_eq_some_iff.1 hn⟩

theorem isDigit_of_toLower_eq {c : Char} {n : Nat} (hn : n < 16) (h : c.toLower = digit n) :
    IsDigit c :=
  isDigit_iff_value?.2 (Option.isSome_of_eq_some (value?_eq_some_iff.2 ⟨hn, h⟩))

theorem IsDigit.toNat_lt {c : Char} (h : IsDigit c) : c.toNat < 128 := by
  rw [isDigit_iff_toNat] at h
  omega

theorem not_isDigit_plus : ¬ IsDigit '+' := by decide

/-! ## Texts of digits -/

/-- An even number of digits. -/
def IsHexadecimal (cs : List Char) : Prop := cs.length % 2 = 0 ∧ ∀ c ∈ cs, IsDigit c

instance (cs : List Char) : Decidable (IsHexadecimal cs) :=
  @instDecidableAnd _ _ inferInstance (List.decidableBAll IsDigit cs)

theorem length_chars (bytes : Bytes) : (chars bytes).length = 2 * bytes.length := by
  simp [chars, List.length_flatMap, Nat.mul_comm]

theorem chars_cons (b : UInt8) (bytes : Bytes) :
    chars (b :: bytes) = digit (b.toNat / 16) :: digit (b.toNat % 16) :: chars bytes := rfl

theorem exists_eq_digit_of_mem_chars {bytes : Bytes} {c : Char} (h : c ∈ chars bytes) :
    ∃ n < 16, c = digit n := by
  obtain ⟨b, _, hc⟩ := List.mem_flatMap.1 h
  have hb := b.toNat_lt
  rcases List.mem_cons.1 hc with rfl | hc
  · exact ⟨b.toNat / 16, by omega, rfl⟩
  · exact ⟨b.toNat % 16, by omega, List.mem_singleton.1 hc⟩

/-- The byte whose digits have these values. -/
theorem toNat_ofNat_digits {high low : Nat} (hhigh : high < 16) (hlow : low < 16) :
    (UInt8.ofNat (16 * high + low)).toNat = 16 * high + low :=
  UInt8.toNat_ofNat_of_lt' (by simp only [UInt8.size]; omega)

theorem even_length_of_cons_cons {α : Type} {a b : α} {xs : List α}
    (h : (a :: b :: xs).length % 2 = 0) : xs.length % 2 = 0 := by
  simp only [List.length_cons] at h
  omega

/-- Exactly the texts of digits show bytes, when their case is left aside. -/
theorem exists_map_toLower_eq_chars_iff {cs : List Char} :
    (∃ bytes, cs.map Char.toLower = chars bytes) ↔ IsHexadecimal cs := by
  constructor
  · rintro ⟨bytes, h⟩
    refine ⟨?_, fun c hc => ?_⟩
    · have hlength := congrArg List.length h
      rw [List.length_map, length_chars] at hlength
      omega
    · obtain ⟨n, hn, hdigit⟩ := exists_eq_digit_of_mem_chars (h ▸ List.mem_map_of_mem hc)
      exact isDigit_of_toLower_eq hn hdigit
  · rintro ⟨heven, hdigits⟩
    induction cs using List.twoStepInduction with
    | nil => exact ⟨[], rfl⟩
    | singleton c => cases heven
    | cons_cons a b cs ih _ =>
      obtain ⟨ha, hb, hcs⟩ := by simpa only [List.forall_mem_cons] using hdigits
      obtain ⟨high, hhigh, ha⟩ := ha.exists_digit
      obtain ⟨low, hlow, hb⟩ := hb.exists_digit
      obtain ⟨bytes, hbytes⟩ := ih (even_length_of_cons_cons heven) hcs
      refine ⟨UInt8.ofNat (16 * high + low) :: bytes, ?_⟩
      have hdiv : (16 * high + low) / 16 = high := by omega
      have hmod : (16 * high + low) % 16 = low := by omega
      rw [List.map_cons, List.map_cons, ha, hb, hbytes, chars_cons,
        toNat_ofNat_digits hhigh hlow, hdiv, hmod]

/-! ## Blanks -/

/-- Space, tab, line feed, form feed and carriage return. -/
def isBlankCharacter (c : Char) : Bool :=
  c = ' ' || c = '\t' || c = '\n' || c = '\x0c' || c = '\r'

/-- The characters of a text that are not blank. -/
def places (text : String) : List Char := text.toList.filter (!isBlankCharacter ·)

theorem isBlankCharacter_iff_toNat {c : Char} :
    isBlankCharacter c = true ↔
      c.toNat = 32 ∨ c.toNat = 9 ∨ c.toNat = 10 ∨ c.toNat = 12 ∨ c.toNat = 13 := by
  simp only [isBlankCharacter, Bool.or_eq_true, decide_eq_true_eq, ← Char.toNat_inj, or_assoc]
  rfl

theorem isBlank_iff_toNat {b : UInt8} :
    isBlank b = true ↔
      b.toNat = 32 ∨ b.toNat = 9 ∨ b.toNat = 10 ∨ b.toNat = 12 ∨ b.toNat = 13 := by
  simp only [isBlank, Bool.or_eq_true, decide_eq_true_eq, ← UInt8.toNat_inj, or_assoc]
  rfl

/-! ## Bytes of characters -/

theorem toNat_code {c : Char} (h : c.toNat < 128) : (UInt8.ofNat c.toNat).toNat = c.toNat :=
  UInt8.toNat_ofNat_of_lt' (Nat.lt_trans h (by decide))

theorem utf8EncodeChar_of_lt {c : Char} (h : c.toNat < 128) :
    String.utf8EncodeChar c = [UInt8.ofNat c.toNat] := by
  unfold String.utf8EncodeChar
  rw [Char.toNat_val, if_pos (by omega)]

/-- The bytes of a character that takes several of them. -/
theorem le_of_mem_utf8EncodeChar {c : Char} (h : 128 ≤ c.toNat) {b : UInt8}
    (hb : b ∈ String.utf8EncodeChar c) : 128 ≤ b.toNat := by
  have hmax : c.toNat < 0x110000 := by
    have := c.valid
    simp only [UInt32.isValidChar, Nat.isValidChar, Char.toNat_val] at this
    omega
  unfold String.utf8EncodeChar at hb
  rw [Char.toNat_val, if_neg (by omega)] at hb
  split_ifs at hb
  all_goals
    simp only [List.mem_cons, List.not_mem_nil, or_false] at hb
    rcases hb with rfl | rfl | rfl | rfl
  all_goals
    rw [UInt8.toNat_ofNat']
    omega

/-- A character is dropped as a whole or not at all. -/
theorem filter_utf8EncodeChar (c : Char) :
    (String.utf8EncodeChar c).filter (!isBlank ·) =
      if isBlankCharacter c then [] else String.utf8EncodeChar c := by
  by_cases hc : c.toNat < 128
  · have hsame : isBlank (UInt8.ofNat c.toNat) = isBlankCharacter c := by
      rw [Bool.eq_iff_iff, isBlank_iff_toNat, isBlankCharacter_iff_toNat, toNat_code hc]
    rw [utf8EncodeChar_of_lt hc, List.filter_singleton, hsame]
    cases isBlankCharacter c <;> rfl
  · have hbytes : ∀ b ∈ String.utf8EncodeChar c, (!isBlank b) = true := by
      intro b hb
      have hlarge := le_of_mem_utf8EncodeChar (Nat.not_lt.1 hc) hb
      rw [Bool.not_eq_true', Bool.eq_false_iff, Ne, isBlank_iff_toNat]
      omega
    rw [List.filter_eq_self.2 hbytes, if_neg]
    rw [isBlankCharacter_iff_toNat]
    omega

/-- Dropping the blanks of a text and then writing it is dropping them from its bytes. -/
theorem filter_bytesOf (text : String) :
    (bytesOf text).filter (!isBlank ·) = (places text).flatMap String.utf8EncodeChar := by
  rw [bytesOf_eq_flatMap, places]
  induction text.toList with
  | nil => rfl
  | cons c cs ih =>
    rw [List.flatMap_cons, List.filter_append, ih, filter_utf8EncodeChar, List.filter_cons]
    cases isBlankCharacter c with
    | true => rfl
    | false => rw [Bool.not_false, if_pos rfl, List.flatMap_cons, if_neg Bool.false_ne_true]

/-- The bytes of characters that take one each. -/
def codes (cs : List Char) : Bytes := cs.map fun c => UInt8.ofNat c.toNat

theorem flatMap_utf8EncodeChar_of_lt {cs : List Char} (h : ∀ c ∈ cs, c.toNat < 128) :
    cs.flatMap String.utf8EncodeChar = codes cs := by
  rw [codes, List.map_eq_flatMap]
  exact List.flatMap_congr fun c hc => utf8EncodeChar_of_lt (h c hc)

theorem lt_of_flatMap_utf8EncodeChar {cs : List Char}
    (h : ∀ b ∈ cs.flatMap String.utf8EncodeChar, b.toNat < 128) : ∀ c ∈ cs, c.toNat < 128 := by
  intro c hc
  by_contra hlarge
  obtain ⟨b, hb⟩ := List.exists_mem_of_ne_nil _ (String.utf8EncodeChar_ne_nil (c := c))
  have hb' := le_of_mem_utf8EncodeChar (Nat.not_lt.1 hlarge) hb
  exact absurd (h b (List.mem_flatMap.2 ⟨c, hc, hb⟩)) (Nat.not_lt.2 hb')

/-! ## Pairs of places -/

/-- The digit that is meant in the first place of a byte, where a plus sign is a zero. -/
def firstDigit (c : Char) : Char := if c = '+' then '0' else c

/-- The digits that are read, two for each byte. -/
def digitsRead : List Char → List Char
  | a :: b :: rest => firstDigit a :: b :: digitsRead rest
  | short => short

/-- What the first place of a byte stands for. -/
theorem value?_firstDigit {a : Char} (ha : a.toNat < 128) :
    (if UInt8.ofNat a.toNat = 43 then some 0 else value? (UInt8.ofNat a.toNat).toNat) =
      value? (firstDigit a).toNat := by
  have hplus : UInt8.ofNat a.toNat = 43 ↔ a = '+' := by
    rw [← UInt8.toNat_inj, toNat_code ha, ← Char.toNat_inj]
    rfl
  unfold firstDigit
  by_cases h : a = '+'
  · rw [if_pos (hplus.2 h), if_pos h]
    rfl
  · rw [if_neg (mt hplus.1 h), if_neg h, toNat_code ha]

/-- Two places are read as a byte if they stand for its digits. -/
theorem readPair_eq_ok_iff {a b : Char} {byte : UInt8} (ha : a.toNat < 128)
    (hb : b.toNat < 128) :
    readPair (UInt8.ofNat a.toNat) (UInt8.ofNat b.toNat) = .ok byte ↔
      (firstDigit a).toLower = digit (byte.toNat / 16) ∧
        b.toLower = digit (byte.toNat % 16) := by
  -- Neither of them is a part of a longer character.
  have hlead : ¬ 224 ≤ UInt8.ofNat a.toNat := by
    rw [UInt8.le_iff_toNat_le, toNat_code ha]
    exact Nat.not_le.2 (Nat.lt_trans ha (by decide))
  have hsplit : ¬ (UInt8.ofNat a.toNat < 128 && 128 ≤ UInt8.ofNat b.toNat) = true := by
    simp only [Bool.and_eq_true, decide_eq_true_eq, UInt8.le_iff_toNat_le, toNat_code hb]
    exact fun h => absurd h.2 (Nat.not_le.2 hb)
  have hbyte := byte.toNat_lt
  rw [readPair, if_neg hlead, if_neg hsplit, value?_firstDigit ha, toNat_code hb]
  constructor
  · intro h
    split at h
    · rename_i high low hhigh hlow
      cases h
      obtain ⟨hhigh, hfirst⟩ := value?_eq_some_iff.1 hhigh
      obtain ⟨hlow, hsecond⟩ := value?_eq_some_iff.1 hlow
      have hdiv : (16 * high + low) / 16 = high := by omega
      have hmod : (16 * high + low) % 16 = low := by omega
      rw [toNat_ofNat_digits hhigh hlow, hdiv, hmod]
      exact ⟨hfirst, hsecond⟩
    · cases h
  · rintro ⟨hfirst, hsecond⟩
    have hhigh := value?_eq_some_iff.2 ⟨show byte.toNat / 16 < 16 by omega, hfirst⟩
    have hlow := value?_eq_some_iff.2 ⟨show byte.toNat % 16 < 16 by omega, hsecond⟩
    simp only [hhigh, hlow, Nat.div_add_mod, UInt8.ofNat_toNat]

/-- Nothing but characters of one byte is read. -/
theorem lt_of_readPair {x y byte : UInt8} (h : readPair x y = .ok byte) :
    x.toNat < 128 ∧ y.toNat < 128 := by
  have hvalue : ∀ {b : UInt8} {n : Nat}, value? b.toNat = some n → b.toNat < 128 := by
    intro b n hb
    unfold value? at hb
    grind
  unfold readPair at h
  generalize hfirst : (if x = 43 then some 0 else value? x.toNat) = first? at h
  split_ifs at h
  split at h
  · rename_i high low hlow
    refine ⟨?_, hvalue hlow⟩
    by_cases hplus : x = 43
    · rw [hplus]
      decide
    · rw [if_neg hplus] at hfirst
      exact hvalue hfirst
  · cases h

theorem readPairs_cons_cons_eq_ok_iff {x y : UInt8} {rest bytes : Bytes} :
    readPairs (x :: y :: rest) = .ok bytes ↔
      ∃ byte further, readPair x y = .ok byte ∧ readPairs rest = .ok further ∧
        bytes = byte :: further := by
  rw [readPairs]
  cases readPair x y with
  | error fault => simp
  | ok byte =>
    cases readPairs rest with
    | error fault => simp
    | ok further => simp [eq_comm]

theorem lt_of_readPairs {places bytes : Bytes} (heven : places.length % 2 = 0)
    (h : readPairs places = .ok bytes) : ∀ x ∈ places, x.toNat < 128 := by
  induction places using List.twoStepInduction generalizing bytes with
  | nil => exact fun x hx => absurd hx List.not_mem_nil
  | singleton x => cases heven
  | cons_cons x y rest ih _ =>
    obtain ⟨byte, further, hpair, hrest, _⟩ := readPairs_cons_cons_eq_ok_iff.1 h
    obtain ⟨hx, hy⟩ := lt_of_readPair hpair
    have hall := ih (even_length_of_cons_cons heven) hrest
    exact List.forall_mem_cons.2 ⟨hx, List.forall_mem_cons.2 ⟨hy, hall⟩⟩

/-- Characters of one byte are read as the bytes whose digits they stand for. -/
theorem readPairs_codes_eq_ok_iff {cs : List Char} {bytes : Bytes}
    (hsmall : ∀ c ∈ cs, c.toNat < 128) (heven : cs.length % 2 = 0) :
    readPairs (codes cs) = .ok bytes ↔ (digitsRead cs).map Char.toLower = chars bytes := by
  induction cs using List.twoStepInduction generalizing bytes with
  | nil =>
    cases bytes with
    | nil => exact iff_of_true rfl rfl
    | cons byte bytes => exact iff_of_false (fun h => by cases h) (fun h => by cases h)
  | singleton c => cases heven
  | cons_cons a b cs ih _ =>
    obtain ⟨ha, hb, hcs⟩ := by simpa only [List.forall_mem_cons] using hsmall
    have heven' := even_length_of_cons_cons heven
    rw [codes, List.map_cons, List.map_cons, readPairs_cons_cons_eq_ok_iff, digitsRead,
      List.map_cons, List.map_cons]
    constructor
    · rintro ⟨byte, further, hpair, hrest, rfl⟩
      obtain ⟨hfirst, hsecond⟩ := (readPair_eq_ok_iff ha hb).1 hpair
      rw [chars_cons, hfirst, hsecond, (ih hcs heven').1 hrest]
    · intro h
      cases bytes with
      | nil => cases h
      | cons byte further =>
        rw [chars_cons, List.cons.injEq, List.cons.injEq] at h
        obtain ⟨hfirst, hsecond, hrest⟩ := h
        exact ⟨byte, further, (readPair_eq_ok_iff ha hb).2 ⟨hfirst, hsecond⟩,
          (ih hcs heven').2 hrest, rfl⟩

/-! ## Texts that are read -/

@[simp] theorem length_digitsRead (cs : List Char) : (digitsRead cs).length = cs.length := by
  fun_induction digitsRead cs with
  | case1 a b rest ih => simp only [List.length_cons, ih]
  | case2 => rfl

theorem eq_plus_or_mem_digitsRead {cs : List Char} {c : Char} (h : c ∈ cs) :
    c = '+' ∨ c ∈ digitsRead cs := by
  fun_induction digitsRead cs with
  | case1 a b rest ih =>
    unfold firstDigit
    grind
  | case2 => exact Or.inr h

theorem digitsRead_of_not_mem {cs : List Char} (h : '+' ∉ cs) : digitsRead cs = cs := by
  fun_induction digitsRead cs with
  | case1 a b rest ih =>
    obtain ⟨ha, hrest⟩ := List.ne_and_not_mem_of_not_mem_cons h
    rw [firstDigit, if_neg (Ne.symm ha), ih (List.ne_and_not_mem_of_not_mem_cons hrest).2]
  | case2 => rfl

/-- A text is read as the bytes whose digits it holds. -/
theorem decode_eq_ok_iff {text : String} {bytes : Bytes} :
    decode text = .ok bytes ↔ (digitsRead (places text)).map Char.toLower = chars bytes := by
  have hdecode : decode text =
      if ((places text).flatMap String.utf8EncodeChar).length % 2 = 1 then .error .oddLength
      else readPairs ((places text).flatMap String.utf8EncodeChar) := by
    rw [← filter_bytesOf]
    rfl
  rw [hdecode]
  by_cases hsmall : ∀ c ∈ places text, c.toNat < 128
  · rw [flatMap_utf8EncodeChar_of_lt hsmall, codes, List.length_map]
    by_cases hodd : (places text).length % 2 = 1
    · rw [if_pos hodd]
      refine iff_of_false (fun h => by cases h) fun h => ?_
      have hlength := congrArg List.length h
      rw [List.length_map, length_digitsRead, length_chars] at hlength
      omega
    · rw [if_neg hodd]
      exact readPairs_codes_eq_ok_iff hsmall (by omega)
  · -- A longer character is neither read nor one of the digits.
    refine iff_of_false (fun h => hsmall ?_) fun h => hsmall ?_
    · split_ifs at h with hodd
      exact lt_of_flatMap_utf8EncodeChar (lt_of_readPairs (by omega) h)
    · intro c hc
      rcases eq_plus_or_mem_digitsRead hc with rfl | hc
      · decide
      · exact ((exists_map_toLower_eq_chars_iff.1 ⟨bytes, h⟩).2 c hc).toNat_lt

/-! ## Texts in other styles -/

/-- The second text holds the characters of the first one in either case, and blanks anywhere. -/
inductive Restyled : List Char → List Char → Prop
  /-- Nothing is left. -/
  | nil : Restyled [] []
  /-- A blank is put in. -/
  | blank {cs ds : List Char} (c : Char) (hblank : isBlankCharacter c = true)
      (rest : Restyled cs ds) : Restyled cs (c :: ds)
  /-- A character is written in one of its cases. -/
  | letter {cs ds : List Char} {c d : Char} (hcase : d.toLower = c.toLower)
      (rest : Restyled cs ds) : Restyled (c :: cs) (d :: ds)

theorem IsDigit.not_blank {c : Char} (h : IsDigit c) : ¬ isBlankCharacter c = true := by
  rw [isDigit_iff_toNat] at h
  rw [isBlankCharacter_iff_toNat]
  omega

theorem toLower_digit {n : Nat} (hn : n < 16) : (digit n).toLower = digit n := by
  rw [← Char.toNat_inj, toNat_toLower, toNat_digit hn]
  split_ifs <;> omega

theorem map_toLower_chars (bytes : Bytes) : (chars bytes).map Char.toLower = chars bytes := by
  induction bytes with
  | nil => rfl
  | cons b bytes ih =>
    have hb := b.toNat_lt
    have hhigh : b.toNat / 16 < 16 := by omega
    have hlow : b.toNat % 16 < 16 := by omega
    rw [chars_cons, List.map_cons, List.map_cons, toLower_digit hhigh, toLower_digit hlow, ih]

/-- No digit is taken for a blank, so exactly the blanks that were put in are dropped. -/
theorem Restyled.map_toLower_filter {cs ds : List Char} (h : Restyled cs ds)
    (hdigits : ∀ c ∈ cs, IsDigit c) :
    (ds.filter (!isBlankCharacter ·)).map Char.toLower = cs.map Char.toLower := by
  induction h with
  | nil => rfl
  | blank c hblank rest ih =>
    rw [List.filter_cons_of_neg, ih hdigits]
    rw [hblank]
    exact Bool.false_ne_true
  | @letter cs ds c d hcase rest ih =>
    obtain ⟨hc, hcs⟩ := List.forall_mem_cons.1 hdigits
    obtain ⟨n, hn, hdigit⟩ := hc.exists_digit
    have hd : IsDigit d := isDigit_of_toLower_eq hn (hcase.trans hdigit)
    rw [List.filter_cons_of_pos, List.map_cons, List.map_cons, hcase, ih hcs]
    rw [Bool.not_eq_true', Bool.eq_false_iff]
    exact hd.not_blank

theorem restyled_of_map_toLower_filter {cs ds : List Char}
    (h : (ds.filter (!isBlankCharacter ·)).map Char.toLower = cs.map Char.toLower) :
    Restyled cs ds := by
  induction ds generalizing cs with
  | nil =>
    cases List.map_eq_nil_iff.1 h.symm
    exact .nil
  | cons d ds ih =>
    rw [List.filter_cons] at h
    cases hblank : isBlankCharacter d with
    | true =>
      rw [hblank, Bool.not_true, if_neg Bool.false_ne_true] at h
      exact .blank d hblank (ih h)
    | false =>
      rw [hblank, Bool.not_false, if_pos rfl, List.map_cons] at h
      cases cs with
      | nil => cases h
      | cons c cs =>
        obtain ⟨hcase, hrest⟩ := List.cons.inj h
        exact .letter hcase (ih hrest)

/-- The texts of bytes are those that hold their digits and nothing else but blanks. -/
theorem restyled_encode_iff {bytes : Bytes} {text : String} :
    Restyled (encode bytes).toList text.toList ↔
      (places text).map Char.toLower = chars bytes := by
  have hlower := map_toLower_chars bytes
  have hdigits := (exists_map_toLower_eq_chars_iff.1 ⟨bytes, hlower⟩).2
  rw [encode, String.toList_ofList]
  exact ⟨fun h => (h.map_toLower_filter hdigits).trans hlower,
    fun h => restyled_of_map_toLower_filter (h.trans hlower.symm)⟩

theorem IsHexadecimal.plus_not_mem {cs : List Char} (h : IsHexadecimal cs) : '+' ∉ cs :=
  fun hplus => not_isDigit_plus (h.2 _ hplus)

/-- Whatever the style of its text, bytes are read back. -/
theorem decode_of_restyled {bytes : Bytes} {text : String}
    (h : Restyled (encode bytes).toList text.toList) : decode text = .ok bytes := by
  have hplaces := restyled_encode_iff.1 h
  have hplus := (exists_map_toLower_eq_chars_iff.1 ⟨bytes, hplaces⟩).plus_not_mem
  rw [decode_eq_ok_iff, digitsRead_of_not_mem hplus, hplaces]

/-! ## What is accepted -/

theorem exists_decode_eq_ok_iff {text : String} :
    (∃ bytes, decode text = .ok bytes) ↔ IsHexadecimal (digitsRead (places text)) := by
  simp only [decode_eq_ok_iff]
  exact exists_map_toLower_eq_chars_iff

end FacetIndex.Hex

namespace FacetIndex.Source

/-- A facet whose bytes are not read means nothing. -/
theorem Facet.exists_fault_of_bytes {f : Facet} {text : String} {fault : Hex.Fault}
    (hbytes : f.bytes = some text) (hread : Hex.decode text = .error fault) :
    ∃ e, f.meaning = .error e := by
  have hvalue : ∃ e, f.value = .error e := by
    rw [value, hbytes]
    cases f.int with
    | some v => exact ⟨_, by cases f.float <;> rfl⟩
    | none =>
      cases f.float with
      | some v => exact ⟨_, rfl⟩
      | none => exact ⟨.hex fault, by simp only [hread]⟩
  obtain ⟨e, he⟩ := hvalue
  exact ⟨e, by rw [meaning, he]⟩

theorem exists_fault_of_mem {fs : List Facet} {f : Facet} (hf : f ∈ fs)
    (h : ∃ e, f.meaning = .error e) : ∃ e, meanings fs = .error e := by
  induction fs with
  | nil => cases hf
  | cons g fs ih =>
    rw [meanings]
    cases hmeaning : g.meaning with
    | error e => exact ⟨e, rfl⟩
    | ok facet =>
      rcases List.mem_cons.1 hf with rfl | hf
      · obtain ⟨e, he⟩ := h
        cases he.symm.trans hmeaning
      · obtain ⟨e, he⟩ := ih hf
        exact ⟨e, by rw [he]⟩

end FacetIndex.Source

namespace FacetIndex.Hex

/-- Without its blanks a text that is read is either hexadecimal, or it has a plus sign and would be
hexadecimal with zeros for those that begin a byte; what is read is shown by these digits in lower
case.  With any other text the command for looking at ordinals fails, and a source document that
attaches it to a facet stands for no document. -/
theorem accepted_texts (text : String) :
    ((∃ bytes, decode text = .ok bytes) ↔
      IsHexadecimal (places text) ∨
        '+' ∈ places text ∧ IsHexadecimal (digitsRead (places text))) ∧
    (∀ bytes, decode text = .ok bytes →
      encode bytes = String.ofList ((digitsRead (places text)).map Char.toLower) ∧
      (IsHexadecimal (places text) →
        encode bytes = String.ofList ((places text).map Char.toLower))) ∧
    ∀ fault, decode text = .error fault →
      Command.showOrdinals text = .fail .hexInput (.hex fault) ∧
      ∀ d : Source.Document, (∃ f ∈ d.facets, f.bytes = some text) →
        ∃ e, d.meaning = .error e := by
  refine ⟨?_, fun bytes hread => ?_, fun fault hread => ⟨?_, ?_⟩⟩
  · rw [exists_decode_eq_ok_iff]
    by_cases hplus : '+' ∈ places text
    · exact ⟨fun h => Or.inr ⟨hplus, h⟩, fun h =>
        h.elim (fun h => absurd hplus h.plus_not_mem) And.right⟩
    · rw [digitsRead_of_not_mem hplus]
      exact ⟨Or.inl, fun h => h.elim id And.right⟩
  · have hshown : encode bytes = String.ofList ((digitsRead (places text)).map Char.toLower) := by
      rw [decode_eq_ok_iff.1 hread, encode]
    refine ⟨hshown, fun h => ?_⟩
    rw [hshown, digitsRead_of_not_mem h.plus_not_mem]
  · rw [Command.showOrdinals, Command.readOrdinals, hread]
    rfl
  · rintro d ⟨f, hf, hbytes⟩
    obtain ⟨e, he⟩ := Source.exists_fault_of_mem hf (f.exists_fault_of_bytes hbytes hread)
    exact ⟨e, by rw [Source.Document.meaning, he]⟩

/-- A mark whose bytes have a minus sign in the first place. -/
def negativeMark : Source.Document :=
  { facets := [{ dimension := "Mark", path := ["north"], bytes := some "-f" }] }

theorem accepted_texts_blanks_and_minus :
    (∃ bytes, decode "5 B\t0c" = .ok bytes ∧ encode bytes = "5b0c") ∧
    Command.showOrdinals "-f" = .fail .hexInput (.hex .badDigit) ∧
    ∃ e, negativeMark.meaning = .error e := by
  obtain ⟨hread, hshown, _⟩ := accepted_texts "5 B\t0c"
  have hhexadecimal : IsHexadecimal (places "5 B\t0c") := by decide +kernel
  obtain ⟨bytes, hbytes⟩ := hread.2 (Or.inl hhexadecimal)
  obtain ⟨_, _, hrefused⟩ := accepted_texts "-f"
  obtain ⟨hordinals, hdocuments⟩ := hrefused .badDigit (by cbv)
  refine ⟨⟨bytes, hbytes, ?_⟩, hordinals, hdocuments _ ⟨_, List.mem_cons_self, rfl⟩⟩
  rw [(hshown bytes hbytes).2 hhexadecimal]
  decide +kernel

/-- A plus sign is no digit, but it is read as a zero: by the reader, by the command for looking at
ordinals, and as a value to attach. -/
theorem accepted_texts_plus :
    ¬ IsHexadecimal (places "+f") ∧ decode "+f" = .ok [15] ∧
      Command.showOrdinals "+f" = .line "[15]" ∧
      ({ dimension := "Mark", bytes := some "+f" } : Source.Facet).value =
        .ok (some (.bytes [15])) := by
  exact ⟨by decide +kernel, by cbv, by decide +kernel, by cbv⟩

end FacetIndex.Hex
