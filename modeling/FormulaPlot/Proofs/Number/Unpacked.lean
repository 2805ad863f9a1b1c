import FormulaPlot.Proofs.Number.Bits
import FormulaPlot.Proofs.Number.Nearest

/-!
# Doubles taken apart

The arithmetic of doubles is done on unpacked ones: a mantissa and the exponent of a power of two
with a sign, where zero, infinity and NaN stand apart. `unpack_toModel` gives the unpacked form of a
double by its shape, and `ofUnpacked_finite` goes back from a mantissa in the block of its exponent.

The mantissa and the power of two of a magnitude are those of its block (`Binary.block_spec`).
-/

namespace FormulaPlot

open Float.Model Float.Model.UnpackedFloat

namespace Binary

/-- The power of two that is the step of a magnitude's block. -/
def scale (bits : Nat) : Nat := bits / 2 ^ 52 - 1

/-- The number of steps in a magnitude. -/
def mantissa (bits : Nat) : Nat := bits - scale bits * 2 ^ 52

/-- The block of a magnitude. -/
theorem block_spec (bits : Nat) : bits = scale bits * 2 ^ 52 + mantissa bits ∧
    (scale bits = 0 ∨ 2 ^ 52 ≤ mantissa bits) ∧ mantissa bits < 2 ^ 53 := by
  unfold mantissa scale
  omega

/-- A magnitude is its mantissa times its step. -/
theorem units_eq_mantissa (bits : Nat) : units bits = mantissa bits * 2 ^ scale bits := by
  obtain ⟨hbits, hblock, hlt⟩ := block_spec bits
  conv_lhs => rw [hbits]
  exact units_block hblock hlt.le

end Binary

open Binary

/-- The sign as arithmetic has it. -/
def signOf (negative : Bool) : Sign := if negative then .negative else .positive

/-- The unpacked form of a shape. -/
def Shape.unpacked : Shape → UnpackedFloat
  | .nan => .notANumber
  | .infinite s => .infinity (signOf s)
  | .finite s bits =>
    if h : mantissa bits = 0 then .zero (signOf s)
    else .finite (signOf s) (mantissa bits) (scale bits - 1074) (Nat.pos_of_ne_zero h)

/-- The unpacked form of a zero. -/
theorem Shape.unpacked_zero {s : Bool} {bits : Nat} (h : mantissa bits = 0) :
    (Shape.finite s bits).unpacked = .zero (signOf s) := dif_pos h

/-- The unpacked form of a number that is no zero. -/
theorem Shape.unpacked_finite {s : Bool} {bits : Nat} (h : 0 < mantissa bits) :
    (Shape.finite s bits).unpacked =
      .finite (signOf s) (mantissa bits) (scale bits - 1074) h := dif_neg h.ne'

/-- The upper bit of a word is its sign. -/
theorem ofBitVec_unpackSign (b : BitVec 64) :
    Sign.ofBitVec (@unpackSign Format.binary64 b) = signOf (decide (2 ^ 63 ≤ b.toNat)) := by
  have hlt := b.isLt
  have hsign : (@unpackSign Format.binary64 b).toNat = b.toNat / 2 ^ 63 := by
    simp [unpackSign, BitVec.extractLsb, BitVec.extractLsb', Nat.shiftRight_eq_div_pow]
    omega
  have hzero : @unpackSign Format.binary64 b = 0#1 ↔ ¬ 2 ^ 63 ≤ b.toNat := by
    rw [← BitVec.toNat_inj, hsign]
    change _ = 0 ↔ _
    omega
  rw [Sign.ofBitVec, signOf]
  by_cases h : 2 ^ 63 ≤ b.toNat
  · rw [if_neg fun h0 => hzero.1 h0 h, decide_eq_true h]
    rfl
  · rw [if_pos (hzero.2 h), decide_eq_false h]
    rfl

/-- The unpacked form of a double is that of its shape. -/
theorem unpack_toModel (x : Float) : x.toModel.unpack = (Shape.ofFloat x).unpacked := by
  have hword : x.toBits = x.toModel.toBits := rfl
  rw [Shape.ofFloat, hword, Float.Model.unpack, UnpackedFloat.unpack, Nat.pow_eq,
    ← UInt64.toNat_toBitVec]
  simp only [ofBitVec_unpackSign]
  generalize x.toModel.toBits.toBitVec = b
  have hlt := b.isLt
  have he := toNat_unpackExponent b
  have hm := toNat_unpackMantissa b
  generalize decide (2 ^ 63 ≤ b.toNat) = s
  -- The cases of unpacking are told by the fields, and those of a shape by the magnitude, so both
  -- are put in terms of the number of the word.
  have hexponent (n : Nat) (hn : n < 2 ^ 11) :
      @unpackExponent Format.binary64 b = BitVec.ofNat 11 n ↔ b.toNat / 2 ^ 52 % 2 ^ 11 = n := by
    rw [← BitVec.toNat_inj, he, BitVec.toNat_ofNat, Nat.mod_eq_of_lt hn]
  have hmantissa : @unpackMantissa Format.binary64 b = 0#52 ↔ b.toNat % 2 ^ 52 = 0 := by
    rw [← BitVec.toNat_inj, hm]
    rfl
  have hall := hexponent 2047 (by norm_num)
  have hnone := hexponent 0 (by norm_num)
  have hinf : infinityBits = 2047 * 2 ^ 52 := rfl
  split
  next h =>
    -- All bits of the exponent are set, so the double is infinite or NaN.
    have h := hall.1 h
    have hpast : ¬ b.toNat % 2 ^ 63 < infinityBits := by omega
    split
    next h0 =>
      have h0 := hmantissa.1 h0
      rw [Shape.ofBits, if_neg hpast, if_pos (by omega)]
      rfl
    next h0 =>
      have h0 := mt hmantissa.2 h0
      rw [Shape.ofBits, if_neg hpast, if_neg (by omega)]
      rfl
  next h =>
    have h := mt hall.2 h
    have hfinite : b.toNat % 2 ^ 63 < infinityBits := by omega
    rw [Shape.ofBits, if_pos hfinite]
    split
    -- Without an exponent the mantissa is the lower field as it stands.
    next hsub =>
      have hsub := hnone.1 hsub
      have hscale : scale (b.toNat % 2 ^ 63) = 0 := by unfold scale; omega
      have hbits : mantissa (b.toNat % 2 ^ 63) = b.toNat % 2 ^ 52 := by
        rw [mantissa, hscale]
        omega
      split
      next h0 => rw [Shape.unpacked_zero (hbits.trans (hmantissa.1 h0))]
      next h0 =>
        rw [Shape.unpacked_finite (Nat.pos_of_ne_zero (hbits ▸ mt hmantissa.2 h0))]
        rw [UnpackedFloat.finite.injEq]
        refine ⟨rfl, hm.trans hbits.symm, ?_⟩
        rw [he, hsub, hscale]
        rfl
    -- With one, it has the bit that the word leaves out.
    next hsub =>
      have hsub := mt hnone.2 hsub
      have hscale : scale (b.toNat % 2 ^ 63) = b.toNat / 2 ^ 52 % 2 ^ 11 - 1 := by
        unfold scale
        omega
      have hbits : mantissa (b.toNat % 2 ^ 63) = 2 ^ 52 + b.toNat % 2 ^ 52 := by
        rw [mantissa, hscale]
        omega
      rw [Shape.unpacked_finite (by omega)]
      rw [UnpackedFloat.finite.injEq]
      refine ⟨rfl, ?_, ?_⟩
      · rw [BitVec.toNat_append, hm, hbits, Nat.shiftLeft_eq, Nat.mul_comm]
        exact (Nat.two_pow_add_eq_or_of_lt (Nat.mod_lt _ (by norm_num)) 1).symm
      · rw [he, hscale, Nat.cast_sub (by omega)]
        change _ - (1023 + 52 : Int) = _
        push_cast
        ring

/-! ## Putting doubles together -/

/-- The double of an unpacked one. -/
def ofUnpacked (u : UnpackedFloat) : Float := .ofModel (.pack u)

section Operations

variable (x y : Float)

/-- A sum is that of the unpacked forms. -/
theorem add_eq : x + y =
    ofUnpacked (.add .binary64 (Shape.ofFloat x).unpacked (Shape.ofFloat y).unpacked) := by
  rw [← unpack_toModel, ← unpack_toModel]
  rfl

/-- A difference is that of the unpacked forms. -/
theorem sub_eq : x - y =
    ofUnpacked (.sub .binary64 (Shape.ofFloat x).unpacked (Shape.ofFloat y).unpacked) := by
  rw [← unpack_toModel, ← unpack_toModel]
  rfl

/-- A product is that of the unpacked forms. -/
theorem mul_eq : x * y =
    ofUnpacked (.mul .binary64 (Shape.ofFloat x).unpacked (Shape.ofFloat y).unpacked) := by
  rw [← unpack_toModel, ← unpack_toModel]
  rfl

/-- A quotient is that of the unpacked forms. -/
theorem div_eq : x / y =
    ofUnpacked (.div .binary64 (Shape.ofFloat x).unpacked (Shape.ofFloat y).unpacked) := by
  rw [← unpack_toModel, ← unpack_toModel]
  rfl

end Operations

/-- The parts of a packed word. -/
theorem toNat_packComponents (s : Bool) (e : BitVec 11) (m : BitVec 52) :
    (packComponents .binary64 (signOf s) e m).toNat =
      e.toNat * 2 ^ 52 + m.toNat + if s then 2 ^ 63 else 0 := by
  have he := e.isLt
  have hm := m.isLt
  have hsign : ((signOf s).toBitVec ++ e).toNat = (if s then 2 ^ 11 else 0) + e.toNat := by
    rw [BitVec.toNat_append, Nat.shiftLeft_eq, ← Nat.mul_comm (2 ^ 11),
      ← Nat.two_pow_add_eq_or_of_lt he]
    cases s <;> rfl
  rw [packComponents, BitVec.toNat_append, hsign, Nat.shiftLeft_eq, ← Nat.mul_comm (2 ^ 52),
    ← Nat.two_pow_add_eq_or_of_lt hm]
  cases s <;> simp <;> omega

/-- Doubles are the same if their words are. -/
theorem ofUnpacked_eq {u : UnpackedFloat} {s : Bool} {bits : Nat} (h : bits ≤ infinityBits)
    (hu : (UnpackedFloat.pack .binary64 u).toNat = bits + if s then 2 ^ 63 else 0) :
    ofUnpacked u = Shape.floatOfBits s bits := by
  have hword : (ofUnpacked u).toBits = (Shape.floatOfBits s bits).toBits := by
    rw [← UInt64.toNat_inj, Shape.toBits_floatOfBits s h, ← hu]
    rfl
  rw [← (ofUnpacked u).ofBits_toBits, hword, Float.ofBits_toBits]

/-- Infinity is put together. -/
theorem ofUnpacked_infinity (s : Bool) :
    ofUnpacked (.infinity (signOf s)) = Shape.floatOfBits s infinityBits :=
  ofUnpacked_eq le_rfl ((toNat_packComponents s _ _).trans rfl)

/-- A zero is put together. -/
theorem ofUnpacked_zero (s : Bool) : ofUnpacked (.zero (signOf s)) = Shape.floatOfBits s 0 :=
  ofUnpacked_eq (Nat.zero_le _) ((toNat_packComponents s _ _).trans rfl)

/-- A mantissa in the block of its exponent is put together as these bits, or as infinity past
them. -/
theorem ofUnpacked_finite {s : Bool} {m k : Nat} (h : 0 < m) (hk : k = 0 ∨ 2 ^ 52 ≤ m)
    (hm : m < 2 ^ 53) : ofUnpacked (.finite (signOf s) m (k - 1074) h) =
      Shape.floatOfBits s (min infinityBits (k * 2 ^ 52 + m)) := by
  have hinf : infinityBits = 2047 * 2 ^ 52 := rfl
  have hbiased : ((k : Int) - 1074 + (1023 : Nat) + (52 : Nat)).toNat = k + 1 := by omega
  refine ofUnpacked_eq (Nat.min_le_left _ _) ?_
  rw [UnpackedFloat.pack]
  change (if 2 ^ 11 ≤ ((k : Int) - 1074 + (1023 : Nat) + (52 : Nat)).toNat + 1 then _
    else _ : BitVec 64).toNat = _
  rw [hbiased]
  split
  next hbig =>
    rw [Nat.min_eq_left (by omega)]
    exact (toNat_packComponents s _ _).trans rfl
  next hsmall =>
    rw [Nat.min_eq_right (by omega)]
    -- The upper bit of the mantissa of a normal double goes into the exponent.
    have hlog : m.log2 + 1 = 53 ↔ 2 ^ 52 ≤ m := by
      rw [← Nat.le_log2 h.ne', show m.log2 + 1 = 53 ↔ m.log2 = 52 by omega]
      have := (Nat.log2_lt h.ne').2 hm
      omega
    split
    next hnormal =>
      have hnormal := hlog.1 hnormal
      refine (toNat_packComponents s _ _).trans ?_
      rw [BitVec.toNat_ofNat, BitVec.toNat_ofNat]
      change ((k : Int) - 1074 + (1023 : Nat) + (52 : Nat)).toNat % 2 ^ 11 * 2 ^ 52 + _ + _ = _
      rw [hbiased]
      omega
    next hsub =>
      have hsub := mt hlog.2 hsub
      refine (toNat_packComponents s _ _).trans ?_
      rw [BitVec.toNat_ofNat, BitVec.toNat_ofNat]
      omega

end FormulaPlot
