import FormulaPlot.Proofs.Number.Amount
import FormulaPlot.Proofs.Number.Arithmetic
import FormulaPlot.Proofs.Number.ReadText

/-!
# Opposite doubles

The opposite of a double that is not NaN has the same magnitude and the other sign, also where the
double is a zero or infinite (`neg_floatOfBits`). The text of a magnitude does not depend on its
sign, so the texts of opposite doubles differ in the minus at their start only
(`exists_plainText_neg`).
-/

namespace FormulaPlot

open Float.Model Binary

/-- The opposite is that of the unpacked form. -/
theorem neg_eq (x : Float) : -x = ofUnpacked (Shape.ofFloat x).unpacked.neg := by
  rw [← unpack_toModel]
  rfl

/-- The opposite of a double by its bits has the other sign. -/
theorem neg_floatOfBits (s : Bool) {bits : Nat} (h : bits ≤ infinityBits) :
    -Shape.floatOfBits s bits = Shape.floatOfBits (!s) bits := by
  obtain ⟨hbits, hblock, hlt⟩ := block_spec bits
  rw [neg_eq, Shape.ofFloat_floatOfBits s h]
  rcases unpacked_cases s h with ⟨rfl, hu⟩ | ⟨rfl, hu⟩ | ⟨-, -, hm, hu⟩
  · rw [hu, UnpackedFloat.neg, Stands.neg_signOf, ofUnpacked_infinity]
  · rw [hu, UnpackedFloat.neg, Stands.neg_signOf, ofUnpacked_zero]
  · rw [hu, UnpackedFloat.neg, Stands.neg_signOf, ofUnpacked_finite hm hblock hlt, ← hbits,
      Nat.min_eq_right h]

/-- The text of a double by its bits is that of its magnitude after its sign. -/
theorem exists_plainText_floatOfBits {bits : Nat} (h : bits ≤ infinityBits) :
    ∃ t, ∀ s, plainText (Shape.floatOfBits s bits) = signed s t := by
  rcases h.lt_or_eq with hlt | rfl
  · refine ⟨Layout.plain.write (Decimal.shortest bits), fun s => ?_⟩
    rw [plainText, writeFloat, Shape.ofFloat_floatOfBits s h, Shape.ofBits_of_lt hlt]
  · refine ⟨['i', 'n', 'f'], fun s => ?_⟩
    rw [plainText, writeFloat, Shape.ofFloat_floatOfBits s h, Shape.ofBits_infinityBits]

/-- The texts of opposite doubles are that of one magnitude after opposite signs. -/
theorem exists_plainText_neg {x : Float} (hx : IsNumber x) :
    ∃ s t, plainText x = signed s t ∧ plainText (-x) = signed (!s) t := by
  obtain ⟨s, bits, hbits, rfl⟩ := hx.exists_bits
  obtain ⟨t, ht⟩ := exists_plainText_floatOfBits hbits
  exact ⟨s, t, ht s, by rw [neg_floatOfBits s hbits, ht]⟩

end FormulaPlot
