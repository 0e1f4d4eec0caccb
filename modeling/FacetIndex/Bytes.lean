set_option autoImplicit false

/-!
# Bytes

Stored values are sequences of bytes.  Fixed-width numbers inside them are 32-bit words with the
most significant byte first.
-/

namespace FacetIndex

/-- A sequence of bytes. -/
abbrev Bytes : Type := List UInt8

namespace Word

/-- The four bytes of a word, the most significant first. -/
def bytes (w : UInt32) : Bytes :=
  [(w >>> 24).toUInt8, (w >>> 16).toUInt8, (w >>> 8).toUInt8, w.toUInt8]

/-- The word with the given bytes, the most significant first. -/
def ofBytes (a b c d : UInt8) : UInt32 :=
  a.toUInt32 <<< 24 ||| b.toUInt32 <<< 16 ||| c.toUInt32 <<< 8 ||| d.toUInt32

@[simp] theorem length_bytes (w : UInt32) : (bytes w).length = 4 := rfl

/-- A word is read back from its bytes. -/
theorem ofBytes_bytes (w : UInt32) :
    ofBytes (w >>> 24).toUInt8 (w >>> 16).toUInt8 (w >>> 8).toUInt8 w.toUInt8 = w := by
  apply UInt32.toNat_inj.1
  apply Nat.eq_of_testBit_eq
  intro i
  have high : 32 ≤ i → w.toNat.testBit i = false := fun hi =>
    Nat.testBit_lt_two_pow (Nat.lt_of_lt_of_le w.toNat_lt (Nat.pow_le_pow_right (by decide) hi))
  simp only [ofBytes, UInt32.toNat_or, UInt32.toNat_shiftLeft, UInt8.toNat_toUInt32,
    UInt32.toNat_toUInt8, UInt32.toNat_shiftRight, Nat.testBit_or, Nat.testBit_mod_two_pow,
    Nat.testBit_shiftLeft, Nat.testBit_shiftRight, UInt32.reduceToNat, Nat.reduceMod]
  grind

/-- Every four bytes are those of a word. -/
theorem bytes_ofBytes (a b c d : UInt8) : bytes (ofBytes a b c d) = [a, b, c, d] := by
  simp only [bytes, List.cons.injEq, and_true]
  refine ⟨?_, ?_, ?_, ?_⟩
  all_goals
    apply UInt8.toBitVec_inj.1
    ext i hi
    simp [ofBytes]
  · grind
  · grind
  · grind

end Word

end FacetIndex
