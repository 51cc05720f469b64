import Mathlib

/-!
Changing the sign of a real number twice gives the number back, for the infinities, the signed zeros and
"not a number" as well.  A double is a sign bit, an exponent and a mantissa; negation takes the three apart,
turns the sign and packs them again, so the argument is that packing undoes unpacking.
-/

open Float.Model Float.Model.UnpackedFloat Format BitVec

namespace Mission.Real

theorem sign_neg_neg (sign : Sign) : - -sign = sign := by
  cases sign <;> rfl

theorem pack_subnormal {sign : Sign} {mantissa : BitVec 52} (hPos : 0 < mantissa.toNat) :
    UnpackedFloat.pack binary64 (.finite sign mantissa.toNat (-1074) hPos) =
      packComponents binary64 sign 0#11 mantissa := by
  have hShort : mantissa.toNat.log2 < 52 :=
    (Nat.log2_lt (Nat.pos_iff_ne_zero.mp hPos)).mpr mantissa.isLt
  have hLog : ¬ mantissa.toNat.log2 + 1 = binary64.mantissaBits := by
    change ¬ mantissa.toNat.log2 + 1 = 53
    omega
  simp only [UnpackedFloat.pack, hLog, if_false]
  rw [if_neg (by decide)]
  congr 1
  exact eq_of_toNat_eq (Nat.mod_eq_of_lt mantissa.isLt)

theorem pack_normal {sign : Sign} {exponent : BitVec 11} {mantissa : BitVec 52}
    (hFinite : exponent ≠ -1#11) (hPos : 0 < (1#1 ++ mantissa).toNat) :
    UnpackedFloat.pack binary64 (.finite sign (1#1 ++ mantissa).toNat (exponent.toNat - 1075) hPos) =
      packComponents binary64 sign exponent mantissa := by
  have hBits : (1#1 ++ mantissa).toNat = 2 ^ 52 + mantissa.toNat := by
    rw [toNat_append, ← Nat.shiftLeft_add_eq_or_of_lt mantissa.isLt]
    rfl
  have hLog : (1#1 ++ mantissa).toNat.log2 + 1 = binary64.mantissaBits := by
    have hExact : (1#1 ++ mantissa).toNat.log2 = 52 := by
      rw [Nat.log2_eq_iff (Nat.pos_iff_ne_zero.mp hPos), hBits]
      have := mantissa.isLt
      omega
    rw [hExact]
    rfl
  have hSmall : exponent.toNat < 2047 := by
    have hLt := exponent.isLt
    have hNe : exponent.toNat ≠ 2047 := fun h => hFinite (eq_of_toNat_eq h)
    omega
  have hBiased : ((exponent.toNat : Int) - 1075 + (binary64.exponentBias : Nat) +
      (binary64.mantissaBitsWithoutImplicit : Nat)).toNat = exponent.toNat := by
    change ((exponent.toNat : Int) - 1075 + (1023 : Nat) + (52 : Nat)).toNat = exponent.toNat
    omega
  simp only [UnpackedFloat.pack, hLog, if_true, hBiased]
  rw [if_neg (by change ¬ 2048 ≤ exponent.toNat + 1; omega)]
  congr 1
  · exact eq_of_toNat_eq (Nat.mod_eq_of_lt exponent.isLt)
  · apply eq_of_toNat_eq
    rw [toNat_ofNat, hBits]
    rw [Nat.add_mod_left]
    exact Nat.mod_eq_of_lt mantissa.isLt

/-- Negation turns the sign bit and keeps the rest, except that there is one "not a number" only. -/
theorem pack_neg_unpack (sign : Sign) (exponent : BitVec 11) (mantissa : BitVec 52) :
    UnpackedFloat.pack binary64
        (UnpackedFloat.unpack binary64 (packComponents binary64 sign exponent mantissa)).neg =
      if exponent = -1#11 ∧ mantissa ≠ 0#52 then packedNaN binary64
      else packComponents binary64 (-sign) exponent mantissa := by
  simp only [UnpackedFloat.unpack, unpackMantissa_packComponents, unpackExponent_packComponents,
    unpackSign_packComponents, Sign.ofBitVec_toBitVec]
  by_cases hTop : exponent = -1#11
  · subst hTop
    by_cases hZero : mantissa = 0#52
    · subst hZero
      rfl
    · rw [if_pos rfl, if_neg hZero, if_pos ⟨rfl, hZero⟩]
      rfl
  · have hNumber : ¬ (exponent = -1#11 ∧ mantissa ≠ 0#52) := fun h => hTop h.1
    rw [if_neg hTop, if_neg hNumber]
    by_cases hBottom : exponent = 0#11
    · subst hBottom
      rw [if_pos rfl]
      by_cases hZero : mantissa = 0#52
      · subst hZero
        rfl
      · rw [dif_neg hZero]
        exact pack_subnormal _
    · rw [if_neg hBottom]
      exact pack_normal hTop _

theorem model_neg_neg (a : Float.Model) : - -a = a := by
  obtain ⟨bits, hValid⟩ := a
  have hTwice : UnpackedFloat.pack binary64 (UnpackedFloat.unpack binary64
      (UnpackedFloat.pack binary64
        (UnpackedFloat.unpack binary64 bits.toBitVec).neg)).neg = bits.toBitVec := by
    have hParts :=
      @packComponents_unpackSign_unpackExponent_unpackMantissa binary64 bits.toBitVec
    have hNaN := hValid.eq_packedNaN
    revert hNaN
    rw [← hParts, unpackExponent_packComponents, unpackMantissa_packComponents, pack_neg_unpack]
    intro hNaN
    split
    · next hOdd =>
        rw [hNaN hOdd.1 hOdd.2]
        rfl
    · next hOdd =>
        rw [pack_neg_unpack, if_neg hOdd, sign_neg_neg]
  change Float.Model.mk (UInt64.ofBitVec _) _ = _
  congr 1
  exact congrArg UInt64.ofBitVec hTwice

/-- Changing the sign twice gives the number back. -/
theorem neg_neg (x : Float) : - -x = x := by
  change Float.ofModel (- (Float.ofModel (-x.toModel)).toModel) = x
  rw [model_neg_neg]

end Mission.Real
