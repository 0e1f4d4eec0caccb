/-
  Proofs/ShownBlobs.lean --- the blobs that are shown can be read back.

  WHAT THIS FILE IS FOR.  The command that builds documents shows their values for
  counting as hexadecimal text, and another command looks at the ordinals of a
  blob that is typed in this form.  It makes no difference in which case the
  digits are typed and where blanks stand, two digits of one byte included.

  WHAT IS PROVED.

      readOrdinals_of_restyled, showOrdinals_of_ok, showOrdinals_of_error
          what the second command reads and writes when a blob is typed in any
          style
      ordinalsListed?_listing
          the list that it writes is read as the ordinals, by the readers that
          the first command has for integers
      shown_blobs_read_back
          whatever is shown for the categories of an index field is read as the
          ordinals that stand for them, each once and in ascending order, and
          listed

  WHAT IS NOT SAID.  That no other text is read as the blob: `Proofs/Hexadecimal.lean`
  has the texts that are read, and a plus sign is in some of them.
-/
import FacetIndex.Proofs.Gathering
import FacetIndex.Proofs.Hexadecimal
import FacetIndex.Proofs.Json
import FacetIndex.Proofs.OrdinalGrammar
import FacetIndex.Proofs.ShownTerms

set_option autoImplicit false

namespace FacetIndex.Command

/-! ## Typed blobs -/

section Typed

variable {blob : Bytes} {text : String}

theorem readOrdinals_of_restyled (h : Hex.Restyled (Hex.encode blob).toList text.toList) :
    readOrdinals text =
      (OrdinalSet.decode blob).mapError fun fault => ⟨.ordinalSet, .error (.format fault)⟩ := by
  rw [readOrdinals, Hex.decode_of_restyled h]
  cases hread : OrdinalSet.decode blob with
  | error fault =>
    simp only [hread]
    rfl
  | ok ordinals =>
    simp only [hread]
    rfl

/-- The ordinals of a blob, as they are listed. -/
def listing (ordinals : List Ordinal) : String :=
  (Json.array (ordinals.map fun o => .nat o.toNatClampNeg)).compact

theorem showOrdinals_of_ok {ordinals : List Ordinal} (h : readOrdinals text = .ok ordinals) :
    showOrdinals text = .line (listing ordinals) := by
  rw [showOrdinals, h, listing]

theorem showOrdinals_of_error {failure : Failure} (h : readOrdinals text = .error failure) :
    showOrdinals text = .fail failure.doing failure.cause := by
  rw [showOrdinals, h, Outcome.fail]

end Typed

/-! ## Listed ordinals -/

/-- The integers of a JSON list, read as those of source documents are. -/
def ordinalsListed? (line : String) : Option (List Ordinal) :=
  (Json.ofString? line).bind
    (Json.asList? fun v => (Source.asNumeral? v).bind Numeral.toInt32?)

theorem numerals_listing (ordinals : List Ordinal) :
    ∀ n ∈ Json.itemNumerals (ordinals.map fun o => .nat o.toNatClampNeg), n.WellFormed := by
  induction ordinals with
  | nil => exact fun n hn => absurd hn List.not_mem_nil
  | cons o ordinals ih => exact List.forall_mem_cons.2 ⟨Numeral.wellFormed_ofNat _, ih⟩

/-- A list of ordinals is read back, if none of them is negative. -/
theorem ordinalsListed?_listing {ordinals : List Ordinal} (h : ∀ o ∈ ordinals, 0 ≤ o) :
    ordinalsListed? (listing ordinals) = some ordinals := by
  have hread : Json.ofString? (listing ordinals) =
      some (.array (ordinals.map fun o => .nat o.toNatClampNeg)) :=
    Json.ofString?_render none (numerals_listing ordinals)
  rw [ordinalsListed?, hread, Option.bind_some, Json.asList?]
  clear hread
  induction ordinals with
  | nil => rfl
  | cons o ordinals ih =>
    obtain ⟨ho, hrest⟩ := List.forall_mem_cons.1 h
    have hone : (Source.asNumeral? (.nat o.toNatClampNeg)).bind Numeral.toInt32? = some o := by
      have hvalue := Numeral.toInt32?_ofNat (OrdinalSet.toNat_le_largest o)
      rw [OrdinalSet.ofNat_toNat ho] at hvalue
      exact hvalue
    rw [List.map_cons, List.mapM_cons, hone, ih hrest]
    rfl

/-! ## Reports -/

/-- The values for counting that a report shows: the name of the field, the kind and the text. -/
def shownValues (b : Built) : List (String × String × String) :=
  b.added.counting.map fun f => (f.name, kindName f.value, Hex.encode f.value.bytes)

theorem exists_report_eq_shownValues (line : Nat) (b : Built) :
    ∃ indexed, report line b = .record [
      ("line", .nat line),
      ("indexed", indexed),
      ("stored", .array ((shownValues b).map fun v =>
        .record [("field", .str v.1), ("kind", .str v.2.1), ("value", .str v.2.2)]))] := by
  rw [report, shownValues, List.map_map]
  exact ⟨_, rfl⟩

/-- What is shown first under the name of a field. -/
theorem find?_shownValues {b : Built} {field : String} {value : DocValues}
    (h : b.added.counting.find? (·.name = field) = some ⟨field, value⟩) :
    (shownValues b).find? (·.1 = field) =
      some (field, kindName value, Hex.encode value.bytes) := by
  rw [shownValues, List.find?_map]
  exact congrArg (Option.map _) h

/-- Whatever the style of its hexadecimal text, a blob is read back, and the command for looking at
ordinals fails if the blob is no ordinal set, and otherwise reads its ordinals and lists them.  A
line that is read as a document and can be built is reported with the blob of each index field that
has categories, and from the text of this blob in any style the command reads and lists the ordinals
that stand for the categories of the field, each once and in ascending order.  As long as all
categories have ordinals of their own, these are the ordinals of the labels that count in the field.
-/
theorem shown_blobs_read_back :
    (∀ (blob : Bytes) (text : String),
      Hex.Restyled (Hex.encode blob).toList text.toList →
        Hex.decode text = .ok blob ∧
        (∀ fault, OrdinalSet.decode blob = .error fault →
          readOrdinals text = .error ⟨.ordinalSet, .error (.format fault)⟩ ∧
          showOrdinals text = .fail .ordinalSet (.error (.format fault))) ∧
        ∀ ordinals, OrdinalSet.decode blob = .ok ordinals →
          readOrdinals text = .ok ordinals ∧
          showOrdinals text = .line (listing ordinals) ∧
          ordinalsListed? (listing ordinals) = some ordinals) ∧
    ∀ (skipInvalid : Bool) (r : Run) (number : Nat) (bytes : Bytes) (d : Document) (b : Built)
      (ix : Indexer) (m : Memory),
      Run.read number bytes = .ok (some d) →
      r.indexer.build Memory.taxonomy r.taxonomy d = (.ok b, ix, m) →
      r.line skipInvalid number bytes =
        ({ r with
            indexer := ix, taxonomy := m, built := r.built + 1,
            stdout := r.stdout ++ ((report number b).compact ++ "\n") }, none) ∧
      (∃ indexed, report number b = .record [
        ("line", .nat number),
        ("indexed", indexed),
        ("stored", .array ((shownValues b).map fun v =>
          .record [("field", .str v.1), ("kind", .str v.2.1), ("value", .str v.2.2)]))]) ∧
      ∀ field, (∃ category ∈ d.categories, r.indexer.settings.fieldOf category = field) →
        ∃ (shown : String) (ordinals : List Ordinal),
          (shownValues b).find? (·.1 = field) = some (field, "binary_doc_values", shown) ∧
          ordinals.Pairwise (· < ·) ∧
          (∀ o, o ∈ ordinals ↔ ∃ category ∈ d.categories,
            r.indexer.settings.fieldOf category = field ∧
              o ∈ m.ordinalsFor (r.indexer.settings.get category.dimension) category) ∧
          (m.size ≤ 2 ^ 31 → ∀ o, o ∈ ordinals ↔
            ∃ l, m.ordinal? l = some o ∧ r.indexer.settings.Counts d field l) ∧
          ∀ text, Hex.Restyled shown.toList text.toList →
            readOrdinals text = .ok ordinals ∧
            showOrdinals text = .line (listing ordinals) ∧
            ordinalsListed? (listing ordinals) = some ordinals := by
  have hok : ∀ {blob : Bytes} {text : String} {ordinals : List Ordinal},
      Hex.Restyled (Hex.encode blob).toList text.toList → OrdinalSet.decode blob = .ok ordinals →
      readOrdinals text = .ok ordinals ∧ showOrdinals text = .line (listing ordinals) ∧
        ordinalsListed? (listing ordinals) = some ordinals := by
    intro blob text ordinals htext hdecode
    have hread := readOrdinals_of_restyled htext
    rw [hdecode] at hread
    exact ⟨hread, showOrdinals_of_ok hread,
      ordinalsListed?_listing (OrdinalSet.pairwise_of_decode hdecode).2⟩
  constructor
  · intro blob text htext
    refine ⟨Hex.decode_of_restyled htext, fun fault hdecode => ?_, fun _ => hok htext⟩
    have hread := readOrdinals_of_restyled htext
    rw [hdecode] at hread
    exact ⟨hread, showOrdinals_of_error hread⟩
  · intro skipInvalid r number bytes d b ix m hread hbuild
    refine ⟨Run.line_of_built hread hbuild, exists_report_eq_shownValues number b, ?_⟩
    intro field hfield
    obtain ⟨blob, hfind, hdecode, hhas⟩ := Indexer.exists_set_of_build hbuild hfield
    refine ⟨Hex.encode blob, _, find?_shownValues hfind, OrdinalSet.pairwise_distinct
      (m.gathered r.indexer.settings (d.categories.filter (r.indexer.settings.fieldOf · = field))),
      fun o => ?_, fun hsize o => ?_, fun text htext => hok htext hdecode⟩
    · rw [OrdinalSet.mem_distinct, Memory.mem_gathered_filter]
    · rw [OrdinalSet.mem_distinct,
        Memory.mem_gathered_iff_counts (Memory.fits_iff_size_le.2 hsize) hhas]

/-- A document about one harbour. -/
def harbourDocument : Document where
  indexable := [.facet (.category ⟨"Harbour", ["Kiel"], by decide, by decide⟩ (by decide))]

/-- The harbour comes after its dimension in the taxonomy, and its blob may be typed with a gap. -/
theorem shown_blobs_read_back_harbourDocument :
    Hex.decode "8 A\n0F" = .ok [0x8a, 0x0f] ∧
    ∃ b ix m,
      Run.read 1 (categoryLine "Harbour" "Kiel") = .ok (some harbourDocument) ∧
      Indexer.build {} Memory.taxonomy {} harbourDocument = (.ok b, ix, m) ∧
      (shownValues b).find? (·.1 = "$facets") = some ("$facets", "binary_doc_values", "02") ∧
      (∀ o : Ordinal, o ∈ [2] ↔ ∃ l, m.ordinal? l = some o ∧
        Dimension.Store.Counts {} harbourDocument "$facets" l) ∧
      readOrdinals "0 2" = .ok [2] ∧ showOrdinals "0 2" = .line "[2]" := by
  obtain ⟨htyped, hbuilt⟩ := shown_blobs_read_back
  have hread : Run.read 1 (categoryLine "Harbour" "Kiel") = .ok (some harbourDocument) := by rfl
  have hfits : (Memory.addAll {} (Dimension.Store.asked {} harbourDocument)).Fits := by
    decide +kernel
  obtain ⟨_, hbuild⟩ := Indexer.exists_build_memory {} {} harbourDocument ⟨_, rfl⟩ hfits
  obtain ⟨_, _, hfields⟩ := hbuilt false {} 1 _ harbourDocument _ _ _ hread hbuild
  obtain ⟨shown, ordinals, hfind, _, _, hcounts, hback⟩ :=
    hfields "$facets" ⟨_, List.mem_cons_self, by decide +kernel⟩
  have htext : Hex.Restyled (Hex.encode [0x8a, 0x0f]).toList "8 A\n0F".toList :=
    Hex.restyled_encode_iff.2 (by decide +kernel)
  have hshown : some ("$facets", "binary_doc_values", shown) =
      some ("$facets", "binary_doc_values", "02") := by
    rw [← hfind]
    decide +kernel
  cases hshown
  obtain ⟨hordinals, hlisted, _⟩ := hback "0 2" (Hex.restyled_of_map_toLower_filter
    (by decide +kernel))
  have htwo : readOrdinals "0 2" = .ok [2] := by cbv
  cases htwo.symm.trans hordinals
  exact ⟨(htyped _ _ htext).1, _, _, _, hread, hbuild, hfind,
    hcounts (Memory.fits_iff_size_le.1 hfits), hordinals, hlisted.trans (by cbv)⟩

end FacetIndex.Command
