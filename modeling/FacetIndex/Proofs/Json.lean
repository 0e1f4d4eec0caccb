/-
  Proofs/Json.lean --- JSON values are read back from their text.

  WHAT THIS FILE IS FOR.  Settings are stored as JSON, lists are printed as JSON,
  and both are read again.  The text of a value is cut into the tokens of the value,
  whatever the layout, and the tokens make up the value.

  WHAT IS PROVED.

      Json.Cutter.run_quote     any text in quotes is one token, with all escapes
      Json.Cutter.run_render    the text of a value is cut into the tokens of the
                                value, one case for each constructor
      Json.Reader.foldlM_toTokens
                                the tokens of a value are read as the value
      Json.ofString?_render     so a value is read back from its text

  HOW IT GOES.  Cutting and reading are both shown for a value in the middle of a
  text: the tokens before it and the frames around it stay as they are, and what
  follows is read as if the value had been there as a token.  That is what makes
  the inductions go through.

  WHAT IS NOT SAID.  Nothing about texts that were not written here: the reader
  accepts more than the writer makes.
-/
import FacetIndex.Json.Reader
import FacetIndex.Proofs.Numeral

set_option autoImplicit false

namespace FacetIndex.Json

/-! ## Tokens of a value -/

mutual

/-- The tokens that make up a value. -/
def toTokens : Json → List Token
  | .text t => [.text t]
  | .array [] => [.beginArray, .endArray]
  | .array (item :: items) => .beginArray :: (toTokens item ++ itemTokens items)
  | .object [] => [.beginObject, .endObject]
  | .object ((name, value) :: members) =>
      .beginObject :: .text name :: .colon :: (toTokens value ++ memberTokens members)
  | .null => [.word .null]
  | .bool b => [.word (.bool b)]
  | .number n => [.word (.number n)]

/-- The tokens of the items behind the first one, to the end of the list. -/
def itemTokens : List Json → List Token
  | [] => [.endArray]
  | item :: items => .comma :: (toTokens item ++ itemTokens items)

/-- The tokens of the members behind the first one, to the end of the object. -/
def memberTokens : List (Text × Json) → List Token
  | [] => [.endObject]
  | (name, value) :: members =>
      .comma :: .text name :: .colon :: (toTokens value ++ memberTokens members)

end

mutual

/-- The numerals in a value. -/
def numerals : Json → List Numeral
  | .number n => [n]
  | .array items => itemNumerals items
  | .object members => memberNumerals members
  | .text _ => []
  | .null => []
  | .bool _ => []

/-- The numerals in some items. -/
def itemNumerals : List Json → List Numeral
  | [] => []
  | item :: items => numerals item ++ itemNumerals items

/-- The numerals in the values of some members. -/
def memberNumerals : List (Text × Json) → List Numeral
  | [] => []
  | (_, value) :: members => numerals value ++ memberNumerals members

end

namespace Cutter

/-- What the cutter makes of a text from where it is. -/
def run (k : Cutter) (cs : List Char) : Option (List Token) := (cs.foldlM feed k).bind finish

theorem run_cons (k : Cutter) (c : Char) (cs : List Char) :
    k.run (c :: cs) = (k.feed c).bind (·.run cs) := by
  rw [run, List.foldlM_cons, Option.bind_eq_bind, Option.bind_assoc]
  rfl

theorem run_nothing_cons (ts : List Token) (c : Char) (cs : List Char) :
    run ⟨ts, .nothing⟩ (c :: cs) = (start ts c).run cs :=
  run_cons _ c cs

/-- A bracket, colon or comma is a token of its own. -/
theorem run_mark {c : Char} {t : Token} (h : Token.ofChar? c = some t) (ts : List Token)
    (cs : List Char) : run ⟨ts, .nothing⟩ (c :: cs) = run ⟨t :: ts, .nothing⟩ cs := by
  rw [run_nothing_cons, start, h]

theorem run_blank {c : Char} (h : Token.isBlank c = true) (ts : List Token) (cs : List Char) :
    run ⟨ts, .nothing⟩ (c :: cs) = run ⟨ts, .nothing⟩ cs := by
  have hstart : start ts c = ⟨ts, .nothing⟩ := by
    simp only [Token.isBlank, Bool.or_eq_true, decide_eq_true_eq] at h
    rcases h with ((rfl | rfl) | rfl) | rfl <;> rfl
  rw [run_nothing_cons, hstart]

theorem run_gap (l : Layout) (ts : List Token) (rest : List Char) :
    run ⟨ts, .nothing⟩ (l.gap ++ rest) = run ⟨ts, .nothing⟩ rest := by
  cases l with
  | none => rfl
  | some depth =>
    rw [Layout.gap, List.cons_append, run_blank rfl]
    induction 2 * depth with
    | zero => rfl
    | succ n ih => rw [List.replicate_succ, List.cons_append, run_blank rfl, ih]

theorem run_colon (l : Layout) (ts : List Token) (rest : List Char) :
    run ⟨ts, .nothing⟩ (l.colon ++ rest) = run ⟨.colon :: ts, .nothing⟩ rest := by
  cases l with
  | none => rfl
  | some depth => exact run_blank rfl (.colon :: ts) rest

/-! ## Words -/

theorem start_of_isWord {c : Char} (h : Token.isWord c = true) (ts : List Token) :
    start ts c = ⟨ts, .word [c]⟩ := by
  simp only [Token.isWord, Bool.and_eq_true, Bool.not_eq_true', Option.isNone_iff_eq_none,
    bne_iff_ne, ne_eq] at h
  obtain ⟨⟨hblank, hchar⟩, hquote⟩ := h
  simp [start, hchar, hblank, hquote]

/-- A word is a token as soon as something else follows. -/
theorem run_word_end {word : List Char} {t : Token} (h : Token.ofWord? word.reverse = some t)
    (ts : List Token) {rest : List Char} (hrest : BeginsOutside Token.isWord rest) :
    run ⟨ts, .word word⟩ rest = run ⟨t :: ts, .nothing⟩ rest := by
  cases rest with
  | nil =>
    change (Token.ofWord? word.reverse).map _ = _
    rw [h]
    rfl
  | cons c cs =>
    have hc := hrest c rfl
    rw [run_cons, run_nothing_cons, feed]
    simp [hc, h]

theorem run_word_append (ts : List Token) (rest : List Char) :
    ∀ (cs word : List Char), (∀ c ∈ cs, Token.isWord c = true) →
      run ⟨ts, .word word⟩ (cs ++ rest) = run ⟨ts, .word (cs.reverse ++ word)⟩ rest := by
  intro cs
  induction cs with
  | nil => intro word _; rfl
  | cons c cs ih =>
    intro word h
    obtain ⟨hc, hcs⟩ := List.forall_mem_cons.1 h
    have hfeed : feed ⟨ts, .word word⟩ c = some ⟨ts, .word (c :: word)⟩ := by simp [feed, hc]
    rw [List.cons_append, run_cons, hfeed, Option.bind_some, ih _ hcs, List.reverse_cons,
      List.append_assoc]
    rfl

/-- A word is cut out of a text. -/
theorem run_word {cs : List Char} {t : Token} (hne : cs ≠ [])
    (hword : ∀ c ∈ cs, Token.isWord c = true) (h : Token.ofWord? cs = some t) (ts : List Token)
    {rest : List Char} (hrest : BeginsOutside Token.isWord rest) :
    run ⟨ts, .nothing⟩ (cs ++ rest) = run ⟨t :: ts, .nothing⟩ rest := by
  obtain ⟨c, cs, rfl⟩ := List.exists_cons_of_ne_nil hne
  obtain ⟨hc, hcs⟩ := List.forall_mem_cons.1 hword
  have hback : (cs.reverse ++ [c]).reverse = c :: cs := by simp
  rw [List.cons_append, run_nothing_cons, start_of_isWord hc, run_word_append ts rest cs [c] hcs,
    run_word_end (hback ▸ h) ts hrest]

/-! ## Quoted texts -/

theorem value?_digit {n : Nat} (h : n < 16) : Hex.value? (Hex.digit n).toNat = some n := by
  revert n
  decide

theorem feed_unit {n : Nat} (hn : n < 16) (ts : List Token) (q : Quoted) (count value : Nat) :
    feed ⟨ts, .unit q count value⟩ (Hex.digit n) =
      if count = 3 then some ⟨ts, .text (q.pushUnit (16 * value + n))⟩
      else some ⟨ts, .unit q (count + 1) (16 * value + n)⟩ := by
  simp only [feed, value?_digit hn, Option.map_some]
  split <;> rfl

/-- An escape with a number is read digit by digit. -/
theorem run_unit {a b c d : Nat} (ha : a < 16) (hb : b < 16) (hc : c < 16) (hd : d < 16)
    (ts : List Token) (q : Quoted) (rest : List Char) :
    run ⟨ts, .text q⟩
        ('\\' :: 'u' :: Hex.digit a :: Hex.digit b :: Hex.digit c :: Hex.digit d :: rest) =
      run ⟨ts, .text (q.pushUnit (16 * (16 * (16 * a + b) + c) + d))⟩ rest := by
  have hstart : ∀ cs, run ⟨ts, .text q⟩ ('\\' :: 'u' :: cs) = run ⟨ts, .unit q 0 0⟩ cs :=
    fun _ => rfl
  simp only [hstart, run_cons, feed_unit ha, feed_unit hb, feed_unit hc, feed_unit hd,
    Option.bind_some, reduceCtorEq, Nat.reduceAdd, Nat.reduceEqDiff, if_true, if_false,
    Nat.mul_zero, Nat.zero_add]

/-- A control character is read back from its number. -/
theorem run_control {c : Char} (h : c.toNat < 32) (ts : List Token) (content rest : List Char) :
    run ⟨ts, .text ⟨some content, none⟩⟩
        ('\\' :: 'u' :: '0' :: '0' :: Hex.digit (c.toNat / 16) :: Hex.digit (c.toNat % 16) ::
          rest) =
      run ⟨ts, .text ⟨some (c :: content), none⟩⟩ rest := by
  have hvalue : 16 * (16 * (16 * 0 + 0) + c.toNat / 16) + c.toNat % 16 = c.toNat := by omega
  have hpush : Quoted.pushUnit ⟨some content, none⟩ c.toNat = ⟨some (c :: content), none⟩ := by
    have hfirst : ¬ 0xd800 ≤ c.toNat := by omega
    have hsecond : ¬ 0xdc00 ≤ c.toNat := by omega
    simp [Quoted.pushUnit, hfirst, hsecond]
  have hread := run_unit (a := 0) (b := 0) (c := c.toNat / 16) (d := c.toNat % 16) (by decide)
    (by decide) (by omega) (by omega) ts ⟨some content, none⟩ rest
  rw [hvalue, hpush] at hread
  exact hread

/-- A character is read back from inside quotes. -/
theorem run_escape (c : Char) (ts : List Token) (content rest : List Char) :
    run ⟨ts, .text ⟨some content, none⟩⟩ (escape c ++ rest) =
      run ⟨ts, .text ⟨some (c :: content), none⟩⟩ rest := by
  unfold escape
  -- the seven characters that have a short escape
  iterate 7
    split
    · subst c
      rfl
  split
  · rename_i hcontrol
    exact run_control hcontrol ts content rest
  · rename_i hquote hmark _ _ _ _ _ hcontrol
    have hfeed : feed ⟨ts, .text ⟨some content, none⟩⟩ c =
        some ⟨ts, .text ⟨some (c :: content), none⟩⟩ := by
      simp [feed, hquote, hmark, hcontrol, Quoted.push]
    rw [List.singleton_append, run_cons, hfeed, Option.bind_some]

theorem run_flatMap_escape (ts : List Token) (rest : List Char) :
    ∀ cs content : List Char,
      run ⟨ts, .text ⟨some content, none⟩⟩ (cs.flatMap escape ++ rest) =
        run ⟨ts, .text ⟨some (cs.reverse ++ content), none⟩⟩ rest := by
  intro cs
  induction cs with
  | nil => intro content; rfl
  | cons c cs ih =>
    intro content
    rw [List.flatMap_cons, List.append_assoc, run_escape, ih, List.reverse_cons, List.append_assoc]
    rfl

theorem run_open (ts : List Token) (rest : List Char) :
    run ⟨ts, .nothing⟩ ('"' :: rest) = run ⟨ts, .text ⟨some [], none⟩⟩ rest := rfl

theorem run_close (ts : List Token) (content rest : List Char) :
    run ⟨ts, .text ⟨some content, none⟩⟩ ('"' :: rest) =
      run ⟨.text (some (String.ofList content.reverse)) :: ts, .nothing⟩ rest := rfl

/-- Half of a pair stands alone, so that the text has no string. -/
theorem run_lone_half (ts : List Token) (rest : List Char) :
    run ⟨ts, .nothing⟩ (quote none ++ rest) = run ⟨.text none :: ts, .nothing⟩ rest := by
  have hquote : quote none = ['"', '\\', 'u', 'd', '8', '0', '0', '"'] := by decide
  have hpush : Quoted.pushUnit {} (16 * (16 * (16 * 13 + 8) + 0) + 0) = ⟨some [], some 0xd800⟩ := by
    simp [Quoted.pushUnit]
  have hclose : run ⟨ts, .text ⟨some [], some 0xd800⟩⟩ ('"' :: rest) =
      run ⟨.text none :: ts, .nothing⟩ rest := rfl
  have hread := run_unit (a := 13) (b := 8) (c := 0) (d := 0) (by decide) (by decide) (by decide)
    (by decide) ts {} ('"' :: rest)
  rw [hpush, hclose] at hread
  rw [hquote]
  exact hread

/-- A quoted text is cut out of a text. -/
theorem run_quote (t : Text) (ts : List Token) (rest : List Char) :
    run ⟨ts, .nothing⟩ (quote t ++ rest) = run ⟨.text t :: ts, .nothing⟩ rest := by
  cases t with
  | none => exact run_lone_half ts rest
  | some s =>
    have hquote : quote (some s) = '"' :: (s.toList.flatMap escape ++ ['"']) := rfl
    rw [hquote, List.cons_append, List.append_assoc, run_open, run_flatMap_escape,
      List.singleton_append, run_close, List.append_nil, List.reverse_reverse, String.ofList_toList]

/-! ## Values -/

theorem beginsOutside_gap_append {l : Layout} {c : Char} (h : Token.isWord c = false)
    (rest : List Char) :
    BeginsOutside Token.isWord (l.gap ++ c :: rest) := by
  cases l with
  | none => exact beginsOutside_cons h rest
  | some depth => exact beginsOutside_cons (by decide) _

theorem beginsOutside_renderItems (l : Layout) (items : List Json) (rest : List Char) :
    BeginsOutside Token.isWord (renderItems l items ++ rest) := by
  cases items with
  | nil =>
    rw [renderItems, List.append_assoc]
    exact beginsOutside_gap_append (by decide) rest
  | cons item items =>
    rw [renderItems, List.cons_append]
    exact beginsOutside_cons (by decide) _

theorem beginsOutside_renderMembers (l : Layout) (members : List (Text × Json))
    (rest : List Char) :
    BeginsOutside Token.isWord (renderMembers l members ++ rest) := by
  cases members with
  | nil =>
    rw [renderMembers, List.append_assoc]
    exact beginsOutside_gap_append (by decide) rest
  | cons member members =>
    rw [renderMembers, List.cons_append]
    exact beginsOutside_cons (by decide) _

mutual

/-- The text of a value is cut into the tokens of the value. -/
theorem run_render (l : Layout) : ∀ (v : Json), (∀ n ∈ v.numerals, n.WellFormed) →
    ∀ (ts : List Token) {rest : List Char}, BeginsOutside Token.isWord rest →
      run ⟨ts, .nothing⟩ (render l v ++ rest) = run ⟨v.toTokens.reverse ++ ts, .nothing⟩ rest
  | .null, _, ts, _, hrest => by
    rw [render, toTokens]
    exact run_word (List.cons_ne_nil _ _) (List.all_eq_true.1 rfl) rfl ts hrest
  | .bool true, _, ts, _, hrest => by
    rw [render, toTokens]
    exact run_word (List.cons_ne_nil _ _) (List.all_eq_true.1 rfl) rfl ts hrest
  | .bool false, _, ts, _, hrest => by
    rw [render, toTokens]
    exact run_word (List.cons_ne_nil _ _) (List.all_eq_true.1 rfl) rfl ts hrest
  | .number n, h, ts, _, hrest => by
    have hn : n.WellFormed := h n (by simp [numerals])
    rw [render, toTokens]
    exact run_word (Numeral.chars_ne_nil hn) n.isWord_of_mem_chars (Numeral.ofWord?_chars hn) ts
      hrest
  | .text t, _, ts, rest, _ => by
    rw [render, toTokens]
    exact run_quote t ts rest
  | .array [], _, ts, rest, _ => by
    rw [render, toTokens]
    rfl
  | .array (item :: items), h, ts, rest, _ => by
    simp only [numerals, itemNumerals, List.forall_mem_append] at h
    rw [render, toTokens, List.cons_append, run_mark (t := .beginArray) rfl, List.append_assoc,
      List.append_assoc, run_gap,
      run_render l.deeper item h.1 _ (beginsOutside_renderItems l items rest),
      run_renderItems l items h.2]
    simp
  | .object [], _, ts, rest, _ => by
    rw [render, toTokens]
    rfl
  | .object ((name, value) :: members), h, ts, rest, _ => by
    simp only [numerals, memberNumerals, List.forall_mem_append] at h
    rw [render, toTokens, List.cons_append, run_mark (t := .beginObject) rfl]
    simp only [List.append_assoc]
    rw [run_gap, run_quote, run_colon,
      run_render l.deeper value h.1 _ (beginsOutside_renderMembers l members rest),
      run_renderMembers l members h.2]
    simp

theorem run_renderItems (l : Layout) : ∀ (items : List Json),
    (∀ n ∈ itemNumerals items, n.WellFormed) → ∀ (ts : List Token) (rest : List Char),
      run ⟨ts, .nothing⟩ (renderItems l items ++ rest) =
        run ⟨(itemTokens items).reverse ++ ts, .nothing⟩ rest
  | [], _, ts, rest => by
    rw [renderItems, itemTokens, List.append_assoc, run_gap]
    rfl
  | item :: items, h, ts, rest => by
    simp only [itemNumerals, List.forall_mem_append] at h
    rw [renderItems, itemTokens, List.cons_append, run_mark (t := .comma) rfl, List.append_assoc,
      List.append_assoc, run_gap,
      run_render l.deeper item h.1 _ (beginsOutside_renderItems l items rest),
      run_renderItems l items h.2]
    simp

theorem run_renderMembers (l : Layout) : ∀ (members : List (Text × Json)),
    (∀ n ∈ memberNumerals members, n.WellFormed) → ∀ (ts : List Token) (rest : List Char),
      run ⟨ts, .nothing⟩ (renderMembers l members ++ rest) =
        run ⟨(memberTokens members).reverse ++ ts, .nothing⟩ rest
  | [], _, ts, rest => by
    rw [renderMembers, memberTokens, List.append_assoc, run_gap]
    rfl
  | (name, value) :: members, h, ts, rest => by
    simp only [memberNumerals, List.forall_mem_append] at h
    rw [renderMembers, memberTokens, List.cons_append, run_mark (t := .comma) rfl]
    simp only [List.append_assoc]
    rw [run_gap, run_quote, run_colon,
      run_render l.deeper value h.1 _ (beginsOutside_renderMembers l members rest),
      run_renderMembers l members h.2]
    simp

end

end Cutter

/-- The text of a value is cut into the tokens of the value. -/
theorem tokens_render (l : Layout) {v : Json} (h : ∀ n ∈ v.numerals, n.WellFormed) :
    tokens (render l v) = some v.toTokens := by
  have hrun := Cutter.run_render l v h [] (beginsOutside_nil _)
  rw [List.append_nil, List.append_nil] at hrun
  have hend : ∀ ts : List Token, Cutter.run ⟨ts.reverse, .nothing⟩ [] = some ts := by
    intro ts
    change some ts.reverse.reverse = _
    rw [List.reverse_reverse]
  have htokens : tokens (render l v) = Cutter.run ⟨[], .nothing⟩ (render l v) := by
    rw [tokens, Cutter.run]
    cases (render l v).foldlM Cutter.feed {} <;> rfl
  rw [htokens, hrun, hend]

/-! ## Reading -/

namespace Reader

/-- A list that waits for its first item takes every value. -/
theorem foldlM_toTokens_firstItem (v : Json) (around : List Frame) (ts : List Token) :
    (v.toTokens ++ ts).foldlM step (.firstItem around) =
      (v.toTokens ++ ts).foldlM step (.value (.array [] :: around)) := by
  cases v with
  | null => rfl
  | bool b => rfl
  | number n => rfl
  | text t => rfl
  | array items => cases items <;> rfl
  | object members => cases members <;> rfl

mutual

/-- The tokens of a value are read as the value, whatever is open around it. -/
theorem foldlM_toTokens : ∀ (v : Json) (around : List Frame) (ts : List Token),
    (v.toTokens ++ ts).foldlM step (.value around) = ts.foldlM step (deliver v around)
  | .null, _, _ => rfl
  | .bool _, _, _ => rfl
  | .number _, _, _ => rfl
  | .text _, _, _ => rfl
  | .array [], _, _ => rfl
  | .array (item :: items), around, ts => by
    have hopen : ∀ us, List.foldlM step (.value around) (.beginArray :: us) =
        us.foldlM step (.firstItem around) := fun _ => rfl
    rw [toTokens, List.cons_append, hopen, List.append_assoc, foldlM_toTokens_firstItem,
      foldlM_toTokens, deliver, foldlM_itemTokens]
    rfl
  | .object [], _, _ => rfl
  | .object ((name, v) :: members), around, ts => by
    have hopen : ∀ us,
        List.foldlM step (.value around) (.beginObject :: .text name :: .colon :: us) =
          us.foldlM step (.value (.member [] name :: around)) := fun _ => rfl
    rw [toTokens, List.cons_append, List.cons_append, List.cons_append, hopen, List.append_assoc,
      foldlM_toTokens, deliver, foldlM_memberTokens]
    rfl

theorem foldlM_itemTokens : ∀ (items before : List Json) (around : List Frame) (ts : List Token),
    (itemTokens items ++ ts).foldlM step (.afterItem before around) =
      ts.foldlM step (deliver (.array (before.reverse ++ items)) around)
  | [], before, around, ts => by
    rw [List.append_nil]
    rfl
  | item :: items, before, around, ts => by
    have hcomma : ∀ us, List.foldlM step (.afterItem before around) (.comma :: us) =
        us.foldlM step (.value (.array before :: around)) := fun _ => rfl
    rw [itemTokens, List.cons_append, hcomma, List.append_assoc, foldlM_toTokens, deliver,
      foldlM_itemTokens, List.reverse_cons, List.append_assoc, List.singleton_append]

theorem foldlM_memberTokens : ∀ (members before : List (Text × Json)) (around : List Frame)
    (ts : List Token),
    (memberTokens members ++ ts).foldlM step (.afterMember before around) =
      ts.foldlM step (deliver (.object (before.reverse ++ members)) around)
  | [], before, around, ts => by
    rw [List.append_nil]
    rfl
  | (name, v) :: members, before, around, ts => by
    have hcomma : ∀ us,
        List.foldlM step (.afterMember before around) (.comma :: .text name :: .colon :: us) =
          us.foldlM step (.value (.member before name :: around)) := fun _ => rfl
    rw [memberTokens, List.cons_append, List.cons_append, List.cons_append, hcomma,
      List.append_assoc, foldlM_toTokens, deliver, foldlM_memberTokens, List.reverse_cons,
      List.append_assoc, List.singleton_append]

end

end Reader

/-- A value is read back from its text, whatever the layout. -/
theorem ofString?_render (l : Layout) {v : Json} (h : ∀ n ∈ v.numerals, n.WellFormed) :
    ofString? (String.ofList (render l v)) = some v := by
  have hread := Reader.foldlM_toTokens v [] []
  rw [List.append_nil] at hread
  have hvalue : ofTokens? v.toTokens = some v := by
    rw [ofTokens?, hread]
    rfl
  rw [ofString?, String.toList_ofList, tokens_render l h, Option.bind_some, hvalue]

end FacetIndex.Json
