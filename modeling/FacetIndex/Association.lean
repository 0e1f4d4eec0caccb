import FacetIndex.Association.Kind
import FacetIndex.Bytes
import FacetIndex.Error
import FacetIndex.Ordinal
import FacetIndex.Single

set_option autoImplicit false

/-!
# Associations

An association field holds records without separators: the ordinal of a category in four bytes and
the value attached to it.  Integers and single-precision numbers take four bytes, most significant
first, so their records have a fixed size and can be read back.  Byte strings are written as they
are and carry no length; only the application can tell where one ends.
-/

namespace FacetIndex.Association

/-- A value attached to a category. -/
inductive Value where
  /-- A 32-bit integer. -/
  | int (value : Int32)
  /-- A single-precision number. -/
  | float (bits : Single)
  /-- A byte string. -/
  | bytes (payload : Bytes)
  deriving DecidableEq, Repr, Inhabited

namespace Value

/-- The kind of a value. -/
def kind : Value → Kind
  | .int _ => .int
  | .float _ => .float
  | .bytes _ => .bytes

/-- The bytes of a value inside a record. -/
def encode : Value → Bytes
  | .int value => Word.bytes value.toUInt32
  | .float bits => Word.bytes bits
  | .bytes payload => payload

/-- The number of those bytes. -/
def encodedLength (v : Value) : Nat := v.encode.length

/-- Equality of values: that of numbers for numbers, and values of two kinds differ. -/
def same : Value → Value → Bool
  | .int a, .int b => a = b
  | .float a, .float b => a.same b
  | .bytes a, .bytes b => a = b
  | _, _ => false

end Value

/-- One record: the ordinal, then the value. -/
def record (ordinal : Ordinal) (value : Value) : Bytes :=
  Word.bytes ordinal.toUInt32 ++ value.encode

/-- The size of a record that holds a number. -/
def fixedRecordSize : Nat := 8

/-- Records of a fixed size: each an ordinal and the word of a number. -/
structure Records where
  /-- The records in the order of the blob. -/
  entries : List (Ordinal × UInt32)
  deriving DecidableEq, Repr, Inhabited

namespace Records

/-- Cuts a blob into records; one that ends inside a record has none. -/
def cut : Bytes → Option (List (Ordinal × UInt32))
  | [] => some []
  | a :: b :: c :: d :: e :: f :: g :: h :: rest =>
      (cut rest).map (((Word.ofBytes a b c d).toInt32, Word.ofBytes e f g h) :: ·)
  | _ => none

/-- A record is read back from its bytes. -/
theorem cut_append (ordinal : Ordinal) (word : UInt32) (rest : Bytes) :
    cut (Word.bytes ordinal.toUInt32 ++ Word.bytes word ++ rest) =
      (cut rest).map ((ordinal, word) :: ·) := by
  simp only [Word.bytes, List.cons_append, List.nil_append, cut, Word.ofBytes_bytes]
  rfl

/-- The records of a blob. -/
def ofBytes (blob : Bytes) : Except FormatFault Records :=
  match cut blob with
  | some entries => .ok ⟨entries⟩
  | none => .error (.unevenRecords blob.length)

/-- The number of records. -/
def length (r : Records) : Nat := r.entries.length

/-- There are no records. -/
def isEmpty (r : Records) : Bool := r.entries.isEmpty

/-- The records with their words as integers. -/
def ints (r : Records) : List (Ordinal × Int32) := r.entries.map fun e => (e.1, e.2.toInt32)

/-- The records with their words as single-precision numbers. -/
def floats (r : Records) : List (Ordinal × Single) := r.entries

end Records

end FacetIndex.Association
