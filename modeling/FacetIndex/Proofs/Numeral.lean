/-
  Proofs/Numeral.lean --- numerals are read back from their text.

  WHAT THIS FILE IS FOR.  A numeral is kept as it is written.  It is written again
  so that nothing is lost, and what is written is one word of a JSON text, which is
  read as the same numeral.

  WHAT IS PROVED.

      Numeral.ofChars?_chars     a well-formed numeral is read back from its text
      Numeral.ofWord?_chars      and its text is one word, which stands for it
      Numeral.wellFormed_ofNat   the numeral of a natural number is well formed
      Numeral.toInt32?_ofNat     and is read as this number, if it fits

  `Numeral.WellFormed` is what texts of numerals have in common: a digit before the
  point, no zero before further digits, and a digit in the exponent.

  WHAT IS NOT SAID.  What a numeral with a fraction is worth; only integers are
  read here as what they stand for.
-/
import FacetIndex.Json.Token
import FacetIndex.Ordinal

set_option autoImplicit false

namespace FacetIndex

/-- A text that does not begin with a character of a kind, so that what stands before it and is made
of such characters ends there. -/
def BeginsOutside (kind : Char → Bool) (rest : List Char) : Prop := ∀ c ∈ rest.head?, kind c = false

theorem beginsOutside_nil (kind : Char → Bool) : BeginsOutside kind [] := by
  intro c hc
  cases hc

theorem beginsOutside_cons {kind : Char → Bool} {c : Char} (h : kind c = false) (rest : List Char) :
    BeginsOutside kind (c :: rest) := by
  intro d hd
  cases hd
  exact h

namespace Digit

/-- The character stands for a digit. -/
def isChar (c : Char) : Bool := (ofChar? c).isSome

theorem ofChar?_char (d : Digit) : ofChar? d.char = some d := by
  revert d
  decide

theorem char_ne (d : Digit) {c : Char} (h : ofChar? c = none) : d.char ≠ c := by
  rintro rfl
  rw [ofChar?_char] at h
  cases h

/-- Digits are read to their end. -/
theorem span_map_char (ds : List Digit) {rest : List Char} (h : BeginsOutside isChar rest) :
    span (ds.map char ++ rest) = (ds, rest) := by
  induction ds with
  | nil =>
    cases rest with
    | nil => rfl
    | cons c cs =>
      have hc : ofChar? c = none := by simpa [isChar] using h c rfl
      simp [span, hc]
  | cons d ds ih => simp [span, ofChar?_char, ih]

end Digit

namespace Numeral

/-- A numeral as texts have them: there are digits before the point and in the exponent, and a zero
before the point stands alone. -/
structure WellFormed (n : Numeral) : Prop where
  /-- There is a digit before the point. -/
  whole_ne_nil : n.whole ≠ []
  /-- No digit follows a zero at the start. -/
  eq_nil_of_zero : ∀ ds, n.whole = 0 :: ds → ds = []
  /-- There is a digit in the exponent. -/
  exponent_ne_nil : ∀ e ∈ n.exponent, e.digits ≠ []

/-- The text of the digits behind the point. -/
def fractionChars (fraction : List Digit) : List Char :=
  if fraction.isEmpty then [] else '.' :: fraction.map Digit.char

/-- The text of the exponent. -/
def exponentChars : Option Exponent → List Char
  | none => []
  | some e => 'e' :: (if e.negative then ['-'] else []) ++ e.digits.map Digit.char

theorem chars_eq (n : Numeral) :
    n.chars = (if n.negative then ['-'] else []) ++ (n.whole.map Digit.char
      ++ (fractionChars n.fraction ++ exponentChars n.exponent)) := by
  rw [← List.append_assoc, ← List.append_assoc]
  rfl

theorem readExponent_exponentChars {exponent : Option Exponent}
    (h : ∀ e ∈ exponent, e.digits ≠ []) :
    readExponent (exponentChars exponent) = some exponent := by
  cases exponent with
  | none => rfl
  | some e =>
    obtain ⟨negative, digits⟩ := e
    obtain ⟨d, ds, rfl⟩ := List.exists_cons_of_ne_nil (h _ rfl)
    have hspan : Digit.span (d.char :: ds.map Digit.char) = (d :: ds, []) := by
      simpa using Digit.span_map_char (d :: ds) (beginsOutside_nil _)
    have hminus : d.char ≠ '-' := d.char_ne (by decide)
    have hplus : d.char ≠ '+' := d.char_ne (by decide)
    cases negative with
    | true => simp [exponentChars, readExponent, hspan]
    | false => simp [exponentChars, readExponent, hminus, hplus, hspan]

theorem beginsOutside_exponentChars (exponent : Option Exponent) :
    BeginsOutside Digit.isChar (exponentChars exponent) := by
  cases exponent with
  | none => exact beginsOutside_nil _
  | some e => exact beginsOutside_cons (by decide) _

theorem readFraction_fractionChars (fraction : List Digit) {exponent : Option Exponent}
    (h : ∀ e ∈ exponent, e.digits ≠ []) :
    readFraction (fractionChars fraction ++ exponentChars exponent) =
      some (fraction, exponent) := by
  cases fraction with
  | nil =>
    have hread : readFraction (exponentChars exponent) =
        (readExponent (exponentChars exponent)).map ([], ·) := by
      cases exponent <;> rfl
    exact hread.trans (by rw [readExponent_exponentChars h, Option.map_some])
  | cons d ds =>
    have hspan := Digit.span_map_char (d :: ds) (beginsOutside_exponentChars exponent)
    have hchars : fractionChars (d :: ds) = '.' :: (d :: ds).map Digit.char := rfl
    rw [hchars, List.cons_append, readFraction]
    simp only [hspan, readExponent_exponentChars h, Option.map_some]

theorem beginsOutside_fractionChars_append (fraction : List Digit) (exponent : Option Exponent) :
    BeginsOutside Digit.isChar (fractionChars fraction ++ exponentChars exponent) := by
  cases fraction with
  | nil => exact beginsOutside_exponentChars exponent
  | cons d ds => exact beginsOutside_cons (by decide) _

/-- A numeral is read back from its text. -/
theorem ofChars?_chars {n : Numeral} (h : n.WellFormed) : ofChars? n.chars = some n := by
  obtain ⟨negative, whole, fraction, exponent⟩ := n
  obtain ⟨hwhole, hzero, hexponent⟩ := h
  obtain ⟨d, ds, rfl⟩ := List.exists_cons_of_ne_nil hwhole
  have hspan := Digit.span_map_char (d :: ds) (beginsOutside_fractionChars_append fraction exponent)
  rw [List.map_cons, List.cons_append] at hspan
  have hlead : d = 0 → ds = [] := by
    rintro rfl
    exact hzero ds rfl
  have hminus : d.char ≠ '-' := d.char_ne (by decide)
  have hread := readFraction_fractionChars fraction hexponent
  rw [chars_eq]
  cases negative with
  | true => simpa [ofChars?, hspan, hread] using hlead
  | false => simpa [ofChars?, hminus, hspan, hread] using hlead

/-! ## Words -/

/-- All characters of a numeral belong to one word. -/
theorem isWord_of_mem_chars (n : Numeral) : ∀ c ∈ n.chars, Json.Token.isWord c = true := by
  have hdigits : ∀ ds : List Digit, ∀ c ∈ ds.map Digit.char, Json.Token.isWord c = true := by
    have hdigit : ∀ d : Digit, Json.Token.isWord d.char = true := by decide
    intro ds c hc
    obtain ⟨d, -, rfl⟩ := List.mem_map.1 hc
    exact hdigit d
  have hsign : ∀ negative : Bool, ∀ c ∈ if negative then ['-'] else [],
      Json.Token.isWord c = true
    | true => List.forall_mem_singleton.2 rfl
    | false => List.forall_mem_nil _
  have hfraction : ∀ c ∈ fractionChars n.fraction, Json.Token.isWord c = true := by
    rw [fractionChars]
    split
    · exact List.forall_mem_nil _
    · exact List.forall_mem_cons.2 ⟨by decide, hdigits _⟩
  have hexponent : ∀ c ∈ exponentChars n.exponent, Json.Token.isWord c = true := by
    cases n.exponent with
    | none => exact List.forall_mem_nil _
    | some e =>
      rw [exponentChars]
      exact List.forall_mem_append.2 ⟨List.forall_mem_cons.2 ⟨by decide, hsign _⟩, hdigits _⟩
  rw [chars_eq]
  simp only [List.forall_mem_append]
  exact ⟨hsign _, hdigits _, hfraction, hexponent⟩

theorem chars_ne_nil {n : Numeral} (h : n.WellFormed) : n.chars ≠ [] := by
  rw [chars_eq]
  simp [h.whole_ne_nil]

/-- The word of a numeral stands for the numeral. -/
theorem ofWord?_chars {n : Numeral} (h : n.WellFormed) :
    Json.Token.ofWord? n.chars = some (.word (.number n)) := by
  have hread := ofChars?_chars h
  have hname : ∀ name : List Char, ofChars? name = none → n.chars ≠ name := by
    rintro name hnone rfl
    rw [hread] at hnone
    cases hnone
  rw [Json.Token.ofWord?, if_neg (hname _ (by decide)), if_neg (hname _ (by decide)),
    if_neg (hname _ (by decide)), hread, Option.map_some]

/-! ## Natural numbers -/

theorem ofChar?_digitChar (d : Digit) : Digit.ofChar? (Nat.digitChar d.val) = some d := by
  revert d
  decide

theorem whole_ofNat_of_lt {n : Nat} (h : n < 10) : (ofNat n).whole = [⟨n, h⟩] := by
  rw [ofNat, Nat.toDigits_of_lt_base h, List.filterMap_cons_some (ofChar?_digitChar ⟨n, h⟩),
    List.filterMap_nil]

/-- The digits of a larger number end with the digit of its units. -/
theorem whole_ofNat_of_le {n : Nat} (h : 10 ≤ n) :
    (ofNat n).whole = (ofNat (n / 10)).whole ++ [⟨n % 10, Nat.mod_lt n (by decide)⟩] := by
  have hunits := ofChar?_digitChar ⟨n % 10, Nat.mod_lt n (by decide)⟩
  rw [ofNat, Nat.toDigits_of_base_le (by decide) h, List.filterMap_append,
    List.filterMap_cons_some hunits, List.filterMap_nil]
  rfl

theorem value_whole_ofNat (n : Nat) : Digit.value (ofNat n).whole = n := by
  induction n using Nat.strongRecOn with
  | ind n ih =>
    by_cases h : n < 10
    · rw [whole_ofNat_of_lt h, Digit.value, List.foldl_cons, List.foldl_nil]
      exact Nat.zero_add n
    · rw [whole_ofNat_of_le (Nat.not_lt.1 h), Digit.value, List.foldl_append,
        List.foldl_cons, List.foldl_nil]
      have hrest := ih (n / 10) (by omega)
      rw [Digit.value] at hrest
      rw [hrest]
      exact Nat.div_add_mod n 10

/-- A positive number does not begin with a zero. -/
theorem exists_whole_ofNat {n : Nat} (hpos : 0 < n) :
    ∃ d ds, (ofNat n).whole = d :: ds ∧ d ≠ 0 := by
  induction n using Nat.strongRecOn with
  | ind n ih =>
    by_cases h : n < 10
    · exact ⟨⟨n, h⟩, [], whole_ofNat_of_lt h, Fin.ne_of_gt hpos⟩
    · obtain ⟨d, ds, hwhole, hd⟩ := ih (n / 10) (by omega) (by omega)
      exact ⟨d, _, by rw [whole_ofNat_of_le (Nat.not_lt.1 h), hwhole, List.cons_append], hd⟩

theorem wellFormed_ofNat (n : Nat) : (ofNat n).WellFormed where
  whole_ne_nil := by
    by_cases h : n < 10
    · rw [whole_ofNat_of_lt h]
      exact List.cons_ne_nil _ _
    · rw [whole_ofNat_of_le (Nat.not_lt.1 h)]
      exact List.append_ne_nil_of_right_ne_nil _ (List.cons_ne_nil _ _)
  eq_nil_of_zero ds hds := by
    cases Nat.eq_zero_or_pos n with
    | inl hzero =>
      subst hzero
      rw [whole_ofNat_of_lt (by decide)] at hds
      exact (List.cons.inj hds).2.symm
    | inr hpos =>
      obtain ⟨d, _, hwhole, hd⟩ := exists_whole_ofNat hpos
      rw [hwhole] at hds
      exact absurd (List.cons.inj hds).1 hd
  exponent_ne_nil e he := by cases he

/-- A number that fits is read back as the integer it is. -/
theorem toInt32?_ofNat {n : Nat} (h : n ≤ Ordinal.largest) :
    (ofNat n).toInt32? = some (Int32.ofNat n) := by
  have hsmall : n < 0x80000000 := Nat.lt_succ_of_le h
  have hinteger : (ofNat n).isInteger = true := rfl
  have hsign : (ofNat n).negative = false := rfl
  simp only [toInt32?, hinteger, hsign, value_whole_ofNat, hsmall, Bool.not_true,
    Bool.false_eq_true, if_true, if_false]

end Numeral

end FacetIndex
