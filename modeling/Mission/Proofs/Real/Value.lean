import Mission.Proofs.Real.Negation
import Mission.Real.Basic

/-! The numbers that doubles stand for. A finite double is a sign, a mantissa and a power of two,
and so a rational number; the infinities and "not a number" stand for none. Comparing, negating and
converting doubles are described by these numbers, so that what follows need not look at bits. -/

open Float.Model Float.Model.UnpackedFloat Format

namespace Mission.Real

variable {x : Float} {negative : Bool} {exponent : BitVec 11} {mantissa : BitVec 52} {p : ℚ} {n : Nat}

/-- The number that a magnitude stands for. -/
def Binary.number (x : Binary) : ℚ :=
  x.mantissa * 2 ^ x.exponent

/-- The mantissas and exponents that doubles have: a full mantissa, or any smaller one at the least
exponent. -/
structure Binary.Canonical (x : Binary) : Prop where
  pos : 0 < x.mantissa
  short : x.mantissa < 2 * hiddenBit
  least : -1074 ≤ x.exponent
  full : hiddenBit ≤ x.mantissa ∨ x.exponent = -1074

/-- The number that a double stands for. Infinities and not-a-number stand for none. -/
def Form.number? : Form → Option ℚ
  | .zero _ => some 0
  | .finite negative magnitude => some (if negative then -magnitude.number else magnitude.number)
  | _ => none

def number? (x : Float) : Option ℚ :=
  (form x).number?

def signOf (negative : Bool) : Sign :=
  if negative then .negative else .positive

/-- A form and an unpacked double that describe the same bits. -/
inductive Describes : Form → UnpackedFloat → Prop
  | nan : Describes .nan .notANumber
  | infinite (negative : Bool) : Describes (.infinite negative) (.infinity (signOf negative))
  | zero (negative : Bool) : Describes (.zero negative) (.zero (signOf negative))
  | finite (negative : Bool) (magnitude : Binary) (h : magnitude.Canonical) :
      Describes (.finite negative magnitude)
        (.finite (signOf negative) magnitude.mantissa magnitude.exponent h.pos)

theorem exists_signOf (sign : Sign) : ∃ negative, sign = signOf negative := by
  cases sign
  · exact ⟨true, rfl⟩
  · exact ⟨false, rfl⟩

theorem toNat_packComponents (negative : Bool) (exponent : BitVec 11) (mantissa : BitVec 52) :
    (packComponents binary64 (signOf negative) exponent mantissa).toNat =
      (if negative then signBit else 0) + exponent.toNat * hiddenBit + mantissa.toNat := by
  change ((signOf negative).toBitVec ++ exponent ++ mantissa).toNat = _
  rw [BitVec.toNat_append, ← Nat.shiftLeft_add_eq_or_of_lt mantissa.isLt,
    BitVec.toNat_append, ← Nat.shiftLeft_add_eq_or_of_lt exponent.isLt]
  cases negative <;> simp [Nat.shiftLeft_eq, Sign.toBitVec, signOf, signBit, hiddenBit]
  omega

/-- The sign, exponent and mantissa of a word. -/
theorem exists_components (bits : UInt64) : ∃ negative, ∃ exponent : BitVec 11, ∃ mantissa : BitVec 52,
    bits.toBitVec = packComponents binary64 (signOf negative) exponent mantissa := by
  have hParts := @packComponents_unpackSign_unpackExponent_unpackMantissa binary64 bits.toBitVec
  obtain ⟨negative, hSign⟩ := exists_signOf (Sign.ofBitVec (@unpackSign binary64 bits.toBitVec))
  rw [hSign] at hParts
  exact ⟨negative, _, _, hParts.symm⟩

theorem toNat_one_append (mantissa : BitVec 52) : (1#1 ++ mantissa).toNat = hiddenBit + mantissa.toNat := by
  rw [BitVec.toNat_append, ← Nat.shiftLeft_add_eq_or_of_lt mantissa.isLt]
  rfl

/-- The bits of a double, read as numbers. -/
theorem form_of_bits (h : x.toBits.toBitVec = packComponents binary64 (signOf negative) exponent mantissa) :
    form x =
      if exponent.toNat = 2047 then
        if mantissa.toNat = 0 then .infinite negative else .nan
      else if exponent.toNat = 0 then
        if mantissa.toNat = 0 then .zero negative else .finite negative ⟨mantissa.toNat, -1074, false⟩
      else .finite negative ⟨hiddenBit + mantissa.toNat, (exponent.toNat : Int) - 1075,
        mantissa.toNat = 0 && 1 < exponent.toNat⟩ := by
  have hNat : x.toBits.toNat =
      (if negative then signBit else 0) + exponent.toNat * hiddenBit + mantissa.toNat := by
    rw [← toNat_packComponents, ← h]
    rfl
  have hE := exponent.isLt
  have hM := mantissa.isLt
  have hSign : decide (x.toBits.toNat / signBit = 1) = negative := by
    cases negative <;> simp [hNat, signBit, hiddenBit] <;> omega
  have hExponent : x.toBits.toNat / hiddenBit % 2048 = exponent.toNat := by
    cases negative <;> simp [hNat, signBit, hiddenBit] <;> omega
  have hFraction : x.toBits.toNat % hiddenBit = mantissa.toNat := by
    cases negative <;> simp [hNat, signBit, hiddenBit] <;> omega
  simp only [form, hSign, hExponent, hFraction]

/-- Reading the bits of a double as numbers finds what unpacking it finds. -/
theorem describes_unpack (x : Float) : Describes (form x) x.toModel.unpack := by
  obtain ⟨negative, exponent, mantissa, hBits⟩ := exists_components x.toBits
  have hUnpack : x.toModel.unpack = UnpackedFloat.unpack binary64
      (packComponents binary64 (signOf negative) exponent mantissa) :=
    congrArg (UnpackedFloat.unpack binary64) hBits
  have hTop : exponent.toNat = 2047 ↔ exponent = -1#11 := (BitVec.toNat_inj (y := -1#11)).trans Iff.rfl
  have hBottom : exponent.toNat = 0 ↔ exponent = 0#11 := (BitVec.toNat_inj (y := 0#11)).trans Iff.rfl
  have hZero : mantissa.toNat = 0 ↔ mantissa = 0#52 := (BitVec.toNat_inj (y := 0#52)).trans Iff.rfl
  rw [hUnpack, form_of_bits hBits]
  simp only [UnpackedFloat.unpack, unpackMantissa_packComponents, unpackExponent_packComponents,
    unpackSign_packComponents, Sign.ofBitVec_toBitVec, hTop, hBottom, hZero]
  have hLt : mantissa.toNat < 2 ^ 52 := mantissa.isLt
  split
  · split
    · exact .infinite negative
    · exact .nan
  · split
    · split
      · exact .zero negative
      · next hE hM =>
        subst hE
        exact .finite negative ⟨mantissa.toNat, -1074, false⟩
          ⟨by rw [← hZero] at hM; exact Nat.pos_of_ne_zero hM, by simp only [hiddenBit]; omega, le_rfl,
            .inr rfl⟩
    · next hE =>
      rw [← hBottom] at hE
      simp only [toNat_one_append]
      exact .finite negative ⟨hiddenBit + mantissa.toNat, _, _⟩
        ⟨by simp [hiddenBit], by simp only [hiddenBit]; omega, by dsimp only; omega,
          .inl (Nat.le_add_right _ _)⟩

theorem Binary.Canonical.number_pos {a : Binary} (h : a.Canonical) : 0 < a.number :=
  mul_pos (Nat.cast_pos.mpr h.pos) (zpow_pos two_pos _)

/-- Of two canonical magnitudes the one with the smaller exponent is the smaller one. -/
theorem Binary.Canonical.number_lt {a b : Binary} (ha : a.Canonical) (hb : b.Canonical)
    (h : a.exponent < b.exponent) : a.number < b.number := by
  have hFull : hiddenBit ≤ b.mantissa := hb.full.resolve_right (by have := ha.least; omega)
  calc a.number
    _ < (2 * hiddenBit : Nat) * 2 ^ a.exponent :=
        mul_lt_mul_of_pos_right (Nat.cast_lt.mpr ha.short) (zpow_pos two_pos _)
    _ = hiddenBit * 2 ^ (a.exponent + 1) := by
        rw [zpow_add_one₀ two_ne_zero]
        push_cast
        ring
    _ ≤ b.mantissa * 2 ^ b.exponent :=
        mul_le_mul (Nat.cast_le.mpr hFull) (zpow_le_zpow_right₀ one_le_two (by omega))
          (zpow_pos two_pos _).le (Nat.cast_nonneg _)

/-- Canonical magnitudes are ordered by exponent first and by mantissa second. -/
theorem Binary.Canonical.compare_eq {a b : Binary} (ha : a.Canonical) (hb : b.Canonical) :
    (compare a.exponent b.exponent).then (compare a.mantissa b.mantissa) = compare a.number b.number := by
  rcases lt_trichotomy a.exponent b.exponent with h | h | h
  · rw [compare_lt_iff_lt.mpr h, compare_lt_iff_lt.mpr (ha.number_lt hb h)]
    rfl
  · have hScale : (0 : ℚ) < 2 ^ b.exponent := zpow_pos two_pos _
    rw [compare_eq_iff_eq.mpr h, Ordering.eq_then, Binary.number, Binary.number, h]
    rcases lt_trichotomy a.mantissa b.mantissa with hM | hM | hM
    · rw [compare_lt_iff_lt.mpr hM,
        compare_lt_iff_lt.mpr (mul_lt_mul_of_pos_right (Nat.cast_lt.mpr hM) hScale)]
    · rw [hM, compare_eq_iff_eq.mpr rfl, compare_eq_iff_eq.mpr rfl]
    · rw [compare_gt_iff_gt.mpr hM,
        compare_gt_iff_gt.mpr (mul_lt_mul_of_pos_right (Nat.cast_lt.mpr hM) hScale)]
  · rw [compare_gt_iff_gt.mpr h, compare_gt_iff_gt.mpr (hb.number_lt ha h)]
    rfl

/-- Doubles are ordered as the numbers they stand for. -/
theorem lt_iff_number {y : Float} {q : ℚ} (hx : number? x = some p) (hy : number? y = some q) :
    x < y ↔ p < q := by
  have hLt : x < y ↔ x.toModel.unpack.compare y.toModel.unpack = some .lt := by
    change decide (x.toModel < y.toModel) = true ↔ _
    exact decide_eq_true_iff.trans beq_iff_eq
  rw [hLt]
  unfold number? at hx hy
  generalize form x = f, x.toModel.unpack = u, describes_unpack x = hu at hx
  generalize form y = g, y.toModel.unpack = v, describes_unpack y = hv at hy
  cases hu with
  | nan => cases hx
  | infinite => cases hx
  | zero n =>
    cases hx
    cases hv with
    | nan => cases hy
    | infinite => cases hy
    | zero m => cases hy; simp [UnpackedFloat.compare]
    | finite m b hb =>
      cases hy
      have := hb.number_pos
      cases m <;> simp [UnpackedFloat.compare, signOf, this, this.le]
  | finite n a ha =>
    cases hx
    have hA := ha.number_pos
    cases hv with
    | nan => cases hy
    | infinite => cases hy
    | zero m =>
      cases hy
      cases n <;> simp [UnpackedFloat.compare, signOf, hA, hA.le]
    | finite m b hb =>
      cases hy
      have hB := hb.number_pos
      cases n <;> cases m
      · simp [UnpackedFloat.compare, signOf, ha.compare_eq hb, compare_lt_iff_lt]
      · simp [UnpackedFloat.compare, signOf]
        linarith
      · simp [UnpackedFloat.compare, signOf]
        linarith
      · simp [UnpackedFloat.compare, signOf, ha.compare_eq hb, Ordering.swap_eq_lt, compare_gt_iff_gt]

/-- A magnitude with no fractional part stands for a natural number. -/
theorem Binary.isIntegral_iff (a : Binary) : a.isIntegral = true ↔ ∃ n : ℕ, a.number = n := by
  simp only [Binary.isIntegral, Binary.number, Bool.or_eq_true, decide_eq_true_eq]
  rcases Int.eq_nat_or_neg a.exponent with ⟨k, h | h⟩
  · refine iff_of_true (.inl (by omega)) ⟨a.mantissa * 2 ^ k, ?_⟩
    rw [h]
    push_cast
    rw [zpow_natCast]
  · have hScale : (2 : ℚ) ^ k ≠ 0 := pow_ne_zero _ two_ne_zero
    have hDvd : (∃ n : ℕ, (a.mantissa : ℚ) * 2 ^ a.exponent = n) ↔ 2 ^ k ∣ a.mantissa := by
      rw [h, zpow_neg, zpow_natCast]
      constructor
      · rintro ⟨n, hn⟩
        refine ⟨n, ?_⟩
        rw [mul_inv_eq_iff_eq_mul₀ hScale] at hn
        exact_mod_cast hn.trans (mul_comm _ _)
      · rintro ⟨n, hn⟩
        refine ⟨n, ?_⟩
        rw [hn, mul_inv_eq_iff_eq_mul₀ hScale]
        push_cast
        exact mul_comm _ _
    rw [hDvd, h, Int.neg_neg, Int.toNat_natCast, Nat.dvd_iff_mod_eq_zero]
    refine ⟨fun hOr => ?_, .inr⟩
    rcases hOr with hNonneg | hMod
    · obtain rfl : k = 0 := by omega
      exact Nat.mod_one _
    · exact hMod

/-- A double passes the integrality test exactly if it stands for an integer. -/
theorem isIntegral_iff (x : Float) : isIntegral x = true ↔ ∃ n : ℤ, number? x = some (n : ℚ) := by
  have hForm := describes_unpack x
  unfold isIntegral number?
  generalize form x = f, x.toModel.unpack = u at hForm
  cases hForm with
  | nan => simp [Form.number?]
  | infinite => simp [Form.number?]
  | zero => exact iff_of_true rfl ⟨0, by simp [Form.number?]⟩
  | finite negative a h =>
    simp only [Form.number?, Option.some.injEq]
    rw [a.isIntegral_iff]
    constructor
    · rintro ⟨n, hn⟩
      refine ⟨if negative then -n else n, ?_⟩
      cases negative <;> simp [hn]
    · rintro ⟨n, hn⟩
      refine ⟨n.natAbs, ?_⟩
      have hPos := h.number_pos
      cases negative
      · simp only [Bool.false_eq_true, if_false] at hn
        have hNonneg : 0 ≤ n := by rw [hn] at hPos; exact_mod_cast hPos.le
        rw [hn, ← Int.cast_natCast, Int.natAbs_of_nonneg hNonneg]
      · simp only [if_true] at hn
        have hNonpos : n ≤ 0 := by
          have : (n : ℚ) < 0 := by rw [← hn]; exact neg_neg_of_pos hPos
          exact_mod_cast this.le
        rw [← Int.cast_natCast, Int.ofNat_natAbs_of_nonpos hNonpos, Int.cast_neg, ← hn, Rat.neg_neg]

theorem mantissa_shiftRight (em : ExtendedMantissa) (k : Nat) :
    (em >>> k).mantissa = em.mantissa / 2 ^ k := by
  induction k with
  | zero => exact (Nat.div_one _).symm
  | succ k ih =>
    change (em >>> k).mantissa / 2 = _
    rw [ih, Nat.div_div_eq_div_mul, pow_succ]

theorem roundToInt_of_integral {mantissa : Nat} {exponent : Int} (h : (mantissa : ℚ) * 2 ^ exponent = n) :
    roundToInt .positive mantissa exponent = n := by
  rcases Int.eq_nat_or_neg exponent with ⟨k, rfl | rfl⟩
  · rw [zpow_natCast] at h
    have hShift : (0 - ((k : Int) - ((k : Int) - 0).toNat)).toNat = 0 := by omega
    simp only [roundToInt, decreaseExponent, shiftToExponent, hShift, mantissa_shiftRight]
    change ((mantissa <<< ((k : Int) - 0).toNat / 2 ^ 0 : Nat) : Int) = n
    rw [sub_zero, Int.toNat_natCast, Nat.shiftLeft_eq, pow_zero, Nat.div_one]
    exact_mod_cast h
  · rw [zpow_neg, zpow_natCast, mul_inv_eq_iff_eq_mul₀ (pow_ne_zero _ two_ne_zero)] at h
    have hWhole : mantissa = n * 2 ^ k := by exact_mod_cast h
    have hShift : (0 - (-(k : Int) - (-(k : Int) - 0).toNat)).toNat = k := by omega
    have hNone : (-(k : Int) - 0).toNat = 0 := by omega
    simp only [roundToInt, decreaseExponent, shiftToExponent, hShift, mantissa_shiftRight]
    rw [hNone]
    change ((mantissa <<< 0 / 2 ^ k : Nat) : Int) = n
    rw [Nat.shiftLeft_zero, hWhole, Nat.mul_div_cancel _ (by positivity)]

/-- The conversion to a machine word is exact up to the largest word, and stops there. -/
theorem toNat_toUInt64 (h : number? x = some (n : ℚ)) : x.toUInt64.toNat = min n (UInt64.size - 1) := by
  have hForm := describes_unpack x
  have hInt : x.toModel.unpack.toInt 0 (UInt64.size - 1) = n := by
    unfold number? at h
    generalize form x = f, x.toModel.unpack = u at hForm h
    cases hForm with
    | nan => cases h
    | infinite => cases h
    | zero =>
      have hZero : (n : ℚ) = 0 := (Option.some.inj h).symm
      rw [Nat.cast_eq_zero.mp hZero]
      rfl
    | finite negative a hA =>
      have hNumber := Option.some.inj h
      have hPos := hA.number_pos
      cases negative
      · exact roundToInt_of_integral hNumber
      · have : (0 : ℚ) ≤ n := Nat.cast_nonneg n
        simp only [if_true] at hNumber
        linarith
  change (UInt64.ofNatClamp (x.toModel.unpack.toInt 0 (UInt64.size - 1)).toNat).toNat = _
  rw [hInt, Int.toNat_natCast, UInt64.ofNatClamp]
  split
  · next hLt =>
    rw [UInt64.toNat_ofNatLT]
    omega
  · rw [UInt64.toNat_ofNatLT]
    omega

theorem neg_signOf (negative : Bool) : -signOf negative = signOf !negative := by
  cases negative <;> rfl

/-- Negation turns the sign bit of a number. -/
theorem toBits_neg (h : x.toBits.toBitVec = packComponents binary64 (signOf negative) exponent mantissa)
    (hNumber : ¬ (exponent = -1#11 ∧ mantissa ≠ 0#52)) :
    (-x).toBits.toBitVec = packComponents binary64 (signOf !negative) exponent mantissa := by
  change UnpackedFloat.pack binary64 (UnpackedFloat.unpack binary64 x.toBits.toBitVec).neg = _
  rw [h, pack_neg_unpack, if_neg hNumber, neg_signOf]

theorem number?_neg (h : number? x = some p) : number? (-x) = some (-p) := by
  obtain ⟨negative, exponent, mantissa, hBits⟩ := exists_components x.toBits
  have hTop : exponent.toNat ≠ 2047 := by
    intro hTop
    rw [number?, form_of_bits hBits, if_pos hTop] at h
    split at h <;> cases h
  have hNeg := toBits_neg hBits fun hNaN => hTop (congrArg BitVec.toNat hNaN.1)
  rw [number?, form_of_bits hBits, if_neg hTop] at h
  rw [number?, form_of_bits hNeg, if_neg hTop]
  split at h
  · next hBottom =>
    rw [if_pos hBottom]
    split at h
    · next hZero =>
      rw [if_pos hZero]
      cases h
      exact congrArg some neg_zero.symm
    · next hZero =>
      rw [if_neg hZero]
      cases h
      cases negative <;> simp [Form.number?]
  · next hBottom =>
    rw [if_neg hBottom]
    cases h
    cases negative <;> simp [Form.number?]

theorem neg_unpack (sign : Sign) (exponent : BitVec 11) (mantissa : BitVec 52) :
    (UnpackedFloat.unpack binary64 (packComponents binary64 sign exponent mantissa)).neg =
      UnpackedFloat.unpack binary64 (packComponents binary64 (-sign) exponent mantissa) := by
  simp only [UnpackedFloat.unpack, unpackMantissa_packComponents, unpackExponent_packComponents,
    unpackSign_packComponents, Sign.ofBitVec_toBitVec]
  split
  · split <;> rfl
  · split
    · split <;> rfl
    · rfl

/-- Packing what was unpacked changes at most one "not a number" into another. -/
theorem unpack_pack_unpack (sign : Sign) (exponent : BitVec 11) (mantissa : BitVec 52) :
    UnpackedFloat.unpack binary64 (UnpackedFloat.pack binary64
        (UnpackedFloat.unpack binary64 (packComponents binary64 sign exponent mantissa))) =
      UnpackedFloat.unpack binary64 (packComponents binary64 sign exponent mantissa) := by
  have hPack := pack_neg_unpack (-sign) exponent mantissa
  rw [neg_unpack, sign_neg_neg] at hPack
  rw [hPack]
  split
  · next hNaN =>
    simp only [UnpackedFloat.unpack, unpackMantissa_packComponents, unpackExponent_packComponents, hNaN.1,
      hNaN.2, if_true, if_false]
    rfl
  · rfl

/-- Turning the sign bit negates. -/
theorem ofBits_signBit (bits : Nat) :
    Float.ofBits (UInt64.ofNat (bits + signBit)) = -Float.ofBits (UInt64.ofNat bits) := by
  obtain ⟨negative, exponent, mantissa, hBits⟩ := exists_components (UInt64.ofNat bits)
  have hTurned : (UInt64.ofNat (bits + signBit)).toBitVec =
      packComponents binary64 (signOf !negative) exponent mantissa := by
    apply BitVec.eq_of_toNat_eq
    have hNat := congrArg BitVec.toNat hBits
    rw [toNat_packComponents, UInt64.toNat_toBitVec, UInt64.toNat_ofNat'] at hNat ⊢
    have hE := exponent.isLt
    have hM := mantissa.isLt
    cases negative <;> simp [signBit, hiddenBit] at hNat ⊢ <;> omega
  have hLeft : Float.ofBits (UInt64.ofNat (bits + signBit)) =
      .ofModel (.pack (UnpackedFloat.unpack binary64 (UInt64.ofNat (bits + signBit)).toBitVec)) := rfl
  have hRight : -Float.ofBits (UInt64.ofNat bits) = .ofModel (.pack (UnpackedFloat.unpack binary64
      (UnpackedFloat.pack binary64
        (UnpackedFloat.unpack binary64 (UInt64.ofNat bits).toBitVec))).neg) := rfl
  rw [hLeft, hRight, hTurned, hBits, unpack_pack_unpack, neg_unpack, neg_signOf]

theorem log2_shiftLeft (h : n ≠ 0) (k : Nat) : (n <<< k).log2 = n.log2 + k := by
  have hLow := Nat.log2_self_le h
  have hHigh := Nat.lt_log2_self (n := n)
  rw [Nat.shiftLeft_eq, Nat.log2_eq_iff (by positivity), pow_add, show n.log2 + k + 1 =
    n.log2 + 1 + k by omega, pow_add]
  exact ⟨Nat.mul_le_mul_right _ hLow, Nat.mul_lt_mul_of_pos_right hHigh (by positivity)⟩

/-- Rounding keeps a mantissa of 53 bits whose exponent is not below the least one. -/
theorem roundWithAccuracy_of_full {mantissa : Nat} {exponent : Int} (sign : Sign) (hPos : 0 < mantissa)
    (hFull : mantissa.log2 = 52) (hLeast : -1074 ≤ exponent) :
    roundWithAccuracy binary64 sign mantissa exponent .exact = .finite sign mantissa exponent hPos := by
  have hTarget : binary64.targetExponent (totalExponent mantissa exponent) = exponent := by
    change max ((mantissa.log2 + 1 : Int) + exponent - 53) (-1074) = exponent
    omega
  have hSame : shiftToTargetExponent binary64 mantissa exponent .exact =
      (⟨mantissa, false, false⟩, exponent) := by
    simp only [shiftToTargetExponent, shiftToExponent, hTarget, sub_self]
    exact congrArg _ (Int.add_zero _)
  have hRounded : ExtendedMantissa.roundedMantissa ⟨mantissa, false, false⟩ = mantissa := rfl
  simp only [roundWithAccuracy, hSame, hRounded]
  exact dif_neg (Nat.pos_iff_ne_zero.mp hPos)

/-- A natural number of at most 53 bits is rounded to itself: it is moved up until it has 53 bits. -/
theorem ofNat_of_short (hPos : 0 < n) (hShort : n.log2 ≤ 52) :
    ∃ h, UnpackedFloat.ofNat binary64 n =
      .finite .positive (n <<< (52 - n.log2)) ((n.log2 : Int) - 52) h := by
  have hLift : 0 < n <<< (52 - n.log2) := by rw [Nat.shiftLeft_eq]; positivity
  have hLog : (n <<< (52 - n.log2)).log2 = 52 := by rw [log2_shiftLeft (by omega)]; omega
  have hTarget : binary64.targetExponent (totalExponent n 0) = (n.log2 : Int) - 52 := by
    change max ((n.log2 + 1 : Int) + 0 - 53) (-1074) = _
    omega
  have hShift : (0 - ((n.log2 : Int) - 52)).toNat = 52 - n.log2 := by omega
  have hBack : (0 : Int) - (52 - n.log2 : Nat) = (n.log2 : Int) - 52 := by omega
  have hCompare : compare (n : Int) 0 = .gt := compare_gt_iff_gt.mpr (by omega)
  refine ⟨hLift, ?_⟩
  simp only [UnpackedFloat.ofNat, UnpackedFloat.ofInt, UnpackedFloat.normalize, hCompare, Int.toNat_natCast,
    UnpackedFloat.round, hTarget, decreaseExponent, hShift, hBack]
  exact roundWithAccuracy_of_full .positive hLift hLog (by omega)

/-- The number of a double that was packed from a mantissa of 53 bits. -/
theorem number?_of_pack {mantissa : Nat} {exponent : Int} {hPos : 0 < mantissa} (hFull : mantissa.log2 = 52)
    (hLeast : -1074 ≤ exponent) (hMost : exponent ≤ 971)
    (h : x.toBits.toBitVec = UnpackedFloat.pack binary64 (.finite .positive mantissa exponent hPos)) :
    number? x = some ((mantissa : ℚ) * 2 ^ exponent) := by
  obtain ⟨hLow, hHigh⟩ := (Nat.log2_eq_iff (by omega)).mp hFull
  have hMantissa : (1#1 ++ BitVec.ofNat 52 (mantissa - hiddenBit)).toNat = mantissa := by
    rw [toNat_one_append, BitVec.toNat_ofNat, Nat.mod_eq_of_lt (by simp only [hiddenBit]; omega)]
    simp only [hiddenBit]
    omega
  have hBiased : (BitVec.ofNat 11 (exponent + 1075).toNat).toNat = (exponent + 1075).toNat := by
    rw [BitVec.toNat_ofNat, Nat.mod_eq_of_lt (by omega)]
  have hExponent : ((BitVec.ofNat 11 (exponent + 1075).toNat).toNat : Int) - 1075 = exponent := by
    rw [hBiased]
    omega
  have hTop : BitVec.ofNat 11 (exponent + 1075).toNat ≠ -1#11 := by
    intro hTop
    rw [hTop] at hBiased
    have : (-1#11).toNat = 2047 := rfl
    omega
  have hPack (m : Nat) (e : Int) (h : 0 < m) (hM : m = (1#1 ++ BitVec.ofNat 52 (mantissa - hiddenBit)).toNat)
      (hE : e = ((BitVec.ofNat 11 (exponent + 1075).toNat).toNat : Int) - 1075) :
      UnpackedFloat.pack binary64 (.finite .positive m e h) = packComponents binary64 (signOf false)
        (BitVec.ofNat 11 (exponent + 1075).toNat) (BitVec.ofNat 52 (mantissa - hiddenBit)) := by
    subst hM hE
    exact pack_normal hTop h
  have hBits := h.trans (hPack mantissa exponent hPos hMantissa.symm hExponent.symm)
  rw [number?, form_of_bits hBits, if_neg (by rw [hBiased]; omega), if_neg (by rw [hBiased]; omega),
    ← toNat_one_append]
  simp only [Form.number?, Binary.number, hMantissa, hExponent, Bool.false_eq_true, if_false]

/-- The integers of magnitude up to `2 ^ 53` are doubles. -/
theorem number?_toFloat {n : UInt64} (h : n.toNat ≤ 2 * hiddenBit) :
    number? n.toFloat = some (n.toNat : ℚ) := by
  rcases Nat.eq_zero_or_pos n.toNat with hZero | hPos
  · rw [hZero, UInt64.toNat_inj.mp (hZero.trans UInt64.toNat_zero.symm)]
    exact congrArg (some ∘ Nat.cast) rfl
  by_cases hTop : n.toNat = 2 * hiddenBit
  · have hForm : form (UInt64.toFloat (UInt64.ofNat (2 * hiddenBit))) = .finite false
      ⟨hiddenBit, 1, true⟩ := rfl
    rw [hTop, ← UInt64.ofNat_toNat (x := n), hTop, number?, hForm]
    simp only [Form.number?, Binary.number]
    push_cast
    norm_num
    ring
  · have hShort : n.toNat.log2 ≤ 52 := by
      refine Nat.lt_succ_iff.mp ((Nat.log2_lt (by omega)).mpr ?_)
      simp only [hiddenBit] at h hTop
      omega
    obtain ⟨hLift, hOfNat⟩ := ofNat_of_short hPos hShort
    have hBits : n.toFloat.toBits.toBitVec = UnpackedFloat.pack binary64
        (.finite .positive (n.toNat <<< (52 - n.toNat.log2)) ((n.toNat.log2 : Int) - 52) hLift) :=
      congrArg (UnpackedFloat.pack binary64) hOfNat
    rw [number?_of_pack (by rw [log2_shiftLeft (by omega)]; omega) (by omega) (by omega) hBits,
      Nat.shiftLeft_eq]
    push_cast
    rw [mul_assoc, ← zpow_natCast, ← zpow_add₀ two_ne_zero]
    rw [show ((52 - n.toNat.log2 : Nat) : Int) + ((n.toNat.log2 : Int) - 52) = 0 by omega, zpow_zero, mul_one]

theorem toInt_eq_toNat (n : Int64) : n.toInt = if n.toUInt64.toNat < 2 ^ 63 then (n.toUInt64.toNat : Int)
    else (n.toUInt64.toNat : Int) - 2 ^ 64 := by
  have h : n.toInt = n.toBitVec.toInt := rfl
  have hNat : n.toUInt64.toNat = n.toBitVec.toNat := rfl
  rw [h, hNat, BitVec.toInt_eq_toNat_cond]
  split <;> split <;> omega

theorem toNat_neg (n : Int64) : (-n).toUInt64.toNat = (2 ^ 64 - n.toUInt64.toNat) % 2 ^ 64 := by
  change (-n).toBitVec.toNat = (2 ^ 64 - n.toBitVec.toNat) % 2 ^ 64
  rw [Int64.toBitVec_neg, BitVec.toNat_neg]

theorem number?_zero : number? 0.0 = some 0 := by
  have hForm : form 0.0 = .zero false := rfl
  rw [number?, hForm]
  rfl

/-- Integers of magnitude up to `2 ^ 53` are reals as they are. -/
theorem number?_ofInteger {n : Int64} (h : n.toInt.natAbs ≤ 2 * hiddenBit) :
    number? (ofInteger n) = some (n.toInt : ℚ) := by
  have hWord := n.toUInt64.toNat_lt
  have hInt := toInt_eq_toNat n
  have hNeg := toNat_neg n
  simp only [hiddenBit] at h
  unfold ofInteger
  split
  · next hSign =>
    rw [Int64.lt_iff_toInt_lt, Int64.toInt_zero] at hSign
    have hAbs : n.toInt = -((-n).toUInt64.toNat : Int) := by
      rw [hNeg]
      split at hInt <;> omega
    rw [hAbs, Int.cast_neg, Int.cast_natCast]
    exact number?_neg (number?_toFloat (by simp only [hiddenBit]; omega))
  · next hSign =>
    rw [Int64.lt_iff_toInt_lt, Int64.toInt_zero] at hSign
    have hAbs : n.toInt = (n.toUInt64.toNat : Int) := by split at hInt <;> omega
    rw [hAbs, Int.cast_natCast]
    exact number?_toFloat (by simp only [hiddenBit]; omega)

/-- A real that is a machine integer is converted to that integer. -/
theorem toInteger_of_number {n : Int64} (h : number? x = some (n.toInt : ℚ)) : toInteger x = n := by
  have hWord := n.toUInt64.toNat_lt
  have hInt := toInt_eq_toNat n
  have hNeg := toNat_neg n
  have hSign : x < 0.0 ↔ n.toInt < 0 := by
    rw [lt_iff_number h number?_zero]
    exact_mod_cast Iff.rfl
  unfold toInteger
  split
  · next hLt =>
    rw [hSign] at hLt
    have hAbs : n.toInt = -((-n).toUInt64.toNat : Int) := by
      rw [hNeg]
      split at hInt <;> omega
    rw [hAbs, Int.cast_neg, Int.cast_natCast] at h
    have hBack : number? (-x) = some (((-n).toUInt64.toNat : Nat) : ℚ) := by
      have := number?_neg h
      rwa [Rat.neg_neg] at this
    have hSame : (-x).toUInt64 = (-n).toUInt64 := by
      apply UInt64.toNat_inj.mp
      rw [toNat_toUInt64 hBack]
      have := (-n).toUInt64.toNat_lt
      simp only [UInt64.size]
      omega
    rw [hSame]
    change - -n = n
    exact Int64.neg_neg
  · next hLt =>
    rw [hSign] at hLt
    have hAbs : n.toInt = (n.toUInt64.toNat : Int) := by split at hInt <;> omega
    rw [hAbs, Int.cast_natCast] at h
    have hSame : x.toUInt64 = n.toUInt64 := by
      apply UInt64.toNat_inj.mp
      rw [toNat_toUInt64 h]
      simp only [UInt64.size]
      omega
    rw [hSame]
    rfl

end Mission.Real
