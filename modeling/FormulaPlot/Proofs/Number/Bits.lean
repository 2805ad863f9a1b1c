import Mathlib
import FormulaPlot.Number.Binary

/-!
# Doubles and their shapes

`Shape.ofFloat` splits a double into its sign and magnitude, and `Shape.toFloat` puts one together.
`toFloat_ofFloat` and `ofFloat_toFloat` show that they are inverse to each other, on the shapes
whose magnitude is finite.

Both go through the words of the doubles, whose fields are read off in numbers. The NaN words are
those past infinity, and a double holds one of them only (`toBits_of_past`).
-/

namespace FormulaPlot

open Float.Model Float.Model.UnpackedFloat

/-! ## Words -/

/-- The lower field of a word. -/
theorem toNat_unpackMantissa (b : BitVec 64) :
    (@unpackMantissa Format.binary64 b).toNat = b.toNat % 2 ^ 52 := by
  simp [unpackMantissa, BitVec.extractLsb, BitVec.extractLsb']

/-- The middle field of a word. -/
theorem toNat_unpackExponent (b : BitVec 64) :
    (@unpackExponent Format.binary64 b).toNat = b.toNat / 2 ^ 52 % 2 ^ 11 := by
  simp [unpackExponent, BitVec.extractLsb, BitVec.extractLsb', Nat.shiftRight_eq_div_pow]

/-- A word that is no NaN or is the one NaN is the bits of its double. -/
theorem toBits_ofBits {b : UInt64} (h : Format.binary64.Valid b.toBitVec) :
    (Float.ofBits b).toBits = b := by
  simp only [Float.ofBits, Float.toBits, Float.Model.ofBits, Float.Model.pack,
    pack_unpack_of_valid h]

/-- The word of a double whose magnitude is past infinity is the one NaN. -/
theorem toBits_of_past {x : Float} (h : Binary.infinityBits < x.toBits.toNat % 2 ^ 63) :
    x.toBits = UInt64.ofNat (Binary.infinityBits + 2 ^ 51) := by
  have hlt := x.toBits.toNat_lt
  rw [Binary.infinityBits, Nat.pow_eq] at h
  -- Past infinity the upper field is full and the lower one is not empty.
  have he : @unpackExponent Format.binary64 x.toBits.toBitVec = -1#11 := by
    apply BitVec.eq_of_toNat_eq
    rw [toNat_unpackExponent, UInt64.toNat_toBitVec]
    change _ = 2047
    omega
  have hm : @unpackMantissa Format.binary64 x.toBits.toBitVec ≠ 0#52 := by
    intro h0
    have := congrArg BitVec.toNat h0
    rw [toNat_unpackMantissa, UInt64.toNat_toBitVec] at this
    change _ = 0 at this
    omega
  have := x.toModel.valid.eq_packedNaN he hm
  rw [← UInt64.toBitVec_inj]
  exact this

/-! ## Shapes -/

namespace Shape

/-- The word of a sign and the bits of a magnitude. -/
theorem toNat_word (s : Bool) {bits : Nat} (h : bits < 2 ^ 63) :
    (UInt64.ofNat (bits + if s then 2 ^ 63 else 0)).toNat = bits + if s then 2 ^ 63 else 0 := by
  rw [UInt64.toNat_ofNat']
  cases s <;> simp <;> omega

/-- A magnitude that is not past infinity fits a word. -/
theorem lt_of_le_infinityBits {bits : Nat} (h : bits ≤ Binary.infinityBits) : bits < 2 ^ 63 :=
  Nat.lt_of_le_of_lt h (by decide)

/-- A word whose magnitude is not past infinity is no NaN. -/
theorem valid_word {s : Bool} {bits : Nat} (h : bits ≤ Binary.infinityBits) :
    Format.binary64.Valid (UInt64.ofNat (bits + if s then 2 ^ 63 else 0)).toBitVec := by
  have hn := toNat_word s (lt_of_le_infinityBits h)
  rw [← UInt64.toNat_toBitVec] at hn
  refine ⟨fun he hm => absurd ?_ hm⟩
  -- The upper fields are those of infinity, so nothing is left for the lower one.
  apply BitVec.eq_of_toNat_eq
  have he' := congrArg BitVec.toNat he
  rw [toNat_unpackExponent, hn] at he'
  rw [toNat_unpackMantissa, hn]
  rw [Binary.infinityBits, Nat.pow_eq] at h
  change _ = 2047 at he'
  change _ = 0
  cases s <;> simp only [if_true, if_false, Bool.false_eq_true] at he' ⊢ <;> omega

/-- The bits of the double with a sign and a magnitude that is not past infinity. -/
theorem toBits_floatOfBits (s : Bool) {bits : Nat} (h : bits ≤ Binary.infinityBits) :
    (floatOfBits s bits).toBits.toNat = bits + if s then 2 ^ 63 else 0 := by
  rw [floatOfBits, Nat.pow_eq, toBits_ofBits (valid_word h), toNat_word s (lt_of_le_infinityBits h)]

/-- The shape of the double with a sign and a magnitude that is not past infinity. -/
theorem ofFloat_floatOfBits (s : Bool) {bits : Nat} (h : bits ≤ Binary.infinityBits) :
    ofFloat (floatOfBits s bits) = ofBits s bits := by
  have h63 := lt_of_le_infinityBits h
  rw [ofFloat, Nat.pow_eq, toBits_floatOfBits s h]
  cases s
  · rw [if_neg Bool.false_ne_true, Nat.add_zero, Nat.mod_eq_of_lt h63,
      decide_eq_false (Nat.not_le.2 h63)]
  · rw [if_pos rfl, Nat.add_mod_right, Nat.mod_eq_of_lt h63,
      decide_eq_true (Nat.le_add_left _ _)]

/-- A finite shape is that of its double. -/
theorem ofFloat_toFloat {s : Bool} {bits : Nat} (h : bits < Binary.infinityBits) :
    ofFloat (toFloat (.finite s bits)) = .finite s bits := by
  rw [toFloat, ofFloat_floatOfBits s (Nat.le_of_lt h), ofBits, if_pos h]

/-- The magnitude of a finite double is below infinity. -/
theorem lt_of_ofFloat {x : Float} {s : Bool} {bits : Nat} (h : ofFloat x = .finite s bits) :
    bits < Binary.infinityBits := by
  unfold ofFloat ofBits at h
  split at h
  next hlt => cases h; exact hlt
  split at h <;> cases h

/-- A double is the double of its shape. -/
theorem toFloat_ofFloat (x : Float) : (ofFloat x).toFloat = x := by
  have hlt := x.toBits.toNat_lt
  have hword : floatOfBits (decide (2 ^ 63 ≤ x.toBits.toNat)) (x.toBits.toNat % 2 ^ 63) = x := by
    -- The sign and the magnitude make up the word that they were read from.
    have hsum : x.toBits.toNat % 2 ^ 63 +
        (if decide (2 ^ 63 ≤ x.toBits.toNat) = true then 2 ^ 63 else 0) = x.toBits.toNat := by
      split
      next h =>
        have := of_decide_eq_true h
        omega
      next h =>
        have := mt decide_eq_true h
        omega
    rw [floatOfBits, Nat.pow_eq, hsum, UInt64.ofNat_toNat, x.ofBits_toBits]
  rw [ofFloat, ofBits, Nat.pow_eq]
  split
  · exact hword
  · split
    next h => rw [h] at hword; exact hword
    next h1 h2 =>
      -- Past infinity the shape says no more than NaN, but there is only one word of that.
      have hpast := toBits_of_past (x := x) (by omega)
      have := x.ofBits_toBits
      rw [hpast] at this
      exact this

end Shape

end FormulaPlot
