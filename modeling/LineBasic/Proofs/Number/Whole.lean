import LineBasic.Proofs.Number.Packing

/-!
# Whole numbers

The number nearest to a natural number is whole, and a whole number that is not negative is the
number nearest to its integer. So the digits of a whole number read back as that number. A natural
number below `2 ^ 53` is a mantissa shifted up, and from there on rounding keeps fifty-three bits,
which leaves a mantissa with a positive exponent.
-/

namespace LineBasic

namespace Number

open Float.Model Float.Model.UnpackedFloat

theorem shiftRight_zero (em : ExtendedMantissa) : em >>> 0 = em := rfl

theorem shiftRight_succ (em : ExtendedMantissa) (k : Nat) :
    em >>> (k + 1) = (em >>> k).shiftRightOne := rfl

theorem mantissa_shiftRight (em : ExtendedMantissa) (k : Nat) :
    (em >>> k).mantissa = em.mantissa / 2 ^ k := by
  induction k with
  | zero => simp [shiftRight_zero]
  | succ k ih =>
      rw [shiftRight_succ, ExtendedMantissa.shiftRightOne, ih, Nat.div_div_eq_div_mul, Nat.pow_succ]

/-- Nothing is lost when the bits that are shifted out are all zero. -/
theorem shiftRight_mul_pow (m k : Nat) :
    (⟨m * 2 ^ k, false, false⟩ : ExtendedMantissa) >>> k = ⟨m, false, false⟩ := by
  induction k generalizing m with
  | zero => simp [shiftRight_zero]
  | succ k ih =>
      have h : m * 2 ^ (k + 1) = m * 2 * 2 ^ k := by rw [Nat.pow_succ]; ring
      rw [h, shiftRight_succ, ih, ExtendedMantissa.shiftRightOne]
      simp

theorem targetExponent_eq (m : Nat) (e : Int) :
    Format.binary64.targetExponent (totalExponent m e) = max (m.log2 + e - 52) (-1074) := by
  simp only [Format.targetExponent, totalExponent, Format.mantissaBits, Format.minExponent]
  norm_num
  omega

theorem log2_mul_two_pow (m k : Nat) (hm : m ≠ 0) : (m * 2 ^ k).log2 = m.log2 + k := by
  have hpos : m * 2 ^ k ≠ 0 := Nat.mul_ne_zero hm (Nat.two_pow_pos k).ne'
  rw [Nat.log2_eq_iff hpos, Nat.pow_add, show m.log2 + k + 1 = m.log2 + 1 + k by omega,
    Nat.pow_add]
  exact ⟨Nat.mul_le_mul_right _ (Nat.log2_self_le hm),
    Nat.mul_lt_mul_of_pos_right Nat.lt_log2_self (Nat.two_pow_pos k)⟩

theorem shiftToTargetExponent_exact (m k : Nat) (e : Int) (hm : m.log2 = 52) (he : -1074 ≤ e) :
    shiftToTargetExponent Format.binary64 (m * 2 ^ k) (e - k) .exact =
      (⟨m, false, false⟩, e) := by
  have hlog : (m * 2 ^ k).log2 = 52 + k := by
    rw [log2_mul_two_pow _ _ (by rintro rfl; simp at hm), hm]
  have htarget : Format.binary64.targetExponent (totalExponent (m * 2 ^ k) (e - k)) = e := by
    rw [targetExponent_eq, hlog]
    omega
  have hshift : (e - (e - (k : Int))).toNat = k := by omega
  simp only [shiftToTargetExponent, htarget, shiftToExponent, hshift,
    ExtendedMantissa.ofMantissaAndAccuracy, shiftRight_mul_pow]
  congr 1
  omega

/-- Rounding shifts, rounds, and shifts once more if the rounding carried into a further bit. -/
theorem roundWithAccuracy_eq {s : Sign} {m : Nat} {e e₁ e₂ : Int} {em₁ em₂ : ExtendedMantissa}
    (h₁ : shiftToTargetExponent Format.binary64 m e .exact = (em₁, e₁))
    (h₂ : shiftToTargetExponent Format.binary64 em₁.roundedMantissa e₁ .exact = (em₂, e₂)) :
    roundWithAccuracy Format.binary64 s m e .exact = unpacked s em₂.mantissa e₂ := by
  rw [roundWithAccuracy, h₁]
  simp only [h₂]
  rfl

theorem roundedMantissa_bounds (em : ExtendedMantissa) :
    em.mantissa ≤ em.roundedMantissa ∧ em.roundedMantissa ≤ em.mantissa + 1 := by
  obtain ⟨m, r, s⟩ := em
  cases r <;> cases s <;>
    simp only [ExtendedMantissa.roundedMantissa, ExtendedMantissa.accuracy,
      Accuracy.roundToNearestEven] <;>
    omega

/-- Rounding after a shift by one bit goes up by at most half a unit. -/
theorem two_mul_roundedMantissa_le (em : ExtendedMantissa) :
    2 * em.shiftRightOne.roundedMantissa ≤ em.mantissa + 1 := by
  obtain ⟨m, r, s⟩ := em
  rcases Nat.mod_two_eq_zero_or_one m with h | h <;> cases hrs : r || s <;>
    simp only [ExtendedMantissa.shiftRightOne, ExtendedMantissa.roundedMantissa, h, hrs,
      ExtendedMantissa.accuracy, Accuracy.roundToNearestEven, bne_self_eq_false,
      show ((1 : Nat) != 0) = true from rfl] <;>
    omega

/-- A mantissa of fifty-three bits is kept as it is, however far it is shifted up. -/
theorem roundWithAccuracy_exact (s : Sign) (m k : Nat) (e : Int) (hm : m.log2 = 52)
    (he : -1074 ≤ e) :
    roundWithAccuracy Format.binary64 s (m * 2 ^ k) (e - k) .exact = unpacked s m e := by
  have h := shiftToTargetExponent_exact m 0 e hm he
  simp only [Nat.pow_zero, Nat.mul_one, Nat.cast_zero, Int.sub_zero] at h
  exact roundWithAccuracy_eq (shiftToTargetExponent_exact m k e hm he) h

/-- A float with a mantissa of fifty-three bits and an exponent in range. -/
theorem fields_pack (s : Sign) (m : Nat) (e : Int) (hm : m.log2 = 52) (he : -1074 ≤ e)
    (he' : e ≤ 971) (x : Float) (hx : x = .ofModel (.pack (unpacked s m e))) :
    x.isFinite = true ∧ signOf x = s ∧ mantissa x = m ∧ exponent x = e := by
  have h0 : m ≠ 0 := by rintro rfl; simp at hm
  obtain ⟨hlow, hhigh⟩ := (Nat.log2_eq_iff h0).mp hm
  have hbits : x.toBits.toNat =
      s.toBitVec.toNat * 2 ^ 63 + (e + 1075).toNat * 2 ^ 52 + (m - 2 ^ 52) := by
    rw [hx]
    change (UnpackedFloat.pack Format.binary64 (unpacked s m e)).toNat = _
    have hb : (e + Format.binary64.exponentBias +
        Format.binary64.mantissaBitsWithoutImplicit).toNat = (e + 1075).toNat := by
      rw [show (Format.binary64.exponentBias : Int) = 1023 from rfl,
        show (Format.binary64.mantissaBitsWithoutImplicit : Int) = 52 from rfl]
      omega
    rw [unpacked, dif_neg h0]
    simp only [UnpackedFloat.pack]
    rw [hb, if_neg (by omega), if_pos (by rw [hm]; rfl), toNat_packComponents]
    simp only [BitVec.toNat_ofNat]
    omega
  obtain ⟨hs, hE, hF⟩ := fields_of_toNat hbits (by omega) (by omega)
  have hE0 : exponentBits x ≠ 0 := by omega
  refine ⟨(isFinite_iff x).mpr (by omega), hs, ?_, ?_⟩
  · rw [mantissa, if_neg hE0, hF, leadingBit]
    omega
  · rw [exponent, if_neg hE0, hE]
    omega

theorem not_isFinite_pack (s : Sign) (m : Nat) (e : Int) (hm : m.log2 = 52) (he : 971 < e) :
    (Float.ofModel (.pack (unpacked s m e))).isFinite = false := by
  have h0 : m ≠ 0 := by rintro rfl; simp at hm
  have hb : 2 ^ 11 ≤ (e + Format.binary64.exponentBias +
      Format.binary64.mantissaBitsWithoutImplicit).toNat + 1 := by
    rw [show (Format.binary64.exponentBias : Int) = 1023 from rfl,
      show (Format.binary64.mantissaBitsWithoutImplicit : Int) = 52 from rfl]
    omega
  have hbits : (Float.ofModel (.pack (unpacked s m e))).toBits.toNat =
      s.toBitVec.toNat * 2 ^ 63 + 2047 * 2 ^ 52 + 0 := by
    change (UnpackedFloat.pack Format.binary64 (unpacked s m e)).toNat = _
    rw [unpacked, dif_neg h0]
    simp only [UnpackedFloat.pack]
    rw [if_pos hb]
    exact toNat_packComponents s (-1#_) 0
  have hE := (fields_of_toNat hbits (by omega) (by omega)).2.1
  rw [Bool.eq_false_iff]
  intro h
  exact (isFinite_iff _).mp h hE

theorem mul_one_of_unpack (x : Float) (m : Nat) (e : Int) (hm : m.log2 = 52) (he : -1074 ≤ e)
    (hx : x.toModel.unpack = unpacked .positive m e) : x * Float.ofBits 0x3FF0000000000000 = x := by
  have h0 : m ≠ 0 := by rintro rfl; simp at hm
  have hone : (Float.ofBits 0x3FF0000000000000).toModel.unpack =
      unpacked .positive (2 ^ 52) (-52) := rfl
  have hmul : UnpackedFloat.mul Format.binary64 (unpacked .positive m e)
      (unpacked .positive (2 ^ 52) (-52)) = unpacked .positive m e := by
    refine Eq.trans ?_ (roundWithAccuracy_exact .positive m 52 e hm he)
    rw [unpacked, dif_neg h0]
    rfl
  calc x * Float.ofBits 0x3FF0000000000000
      = .ofModel (.pack (UnpackedFloat.mul Format.binary64 x.toModel.unpack
          (Float.ofBits 0x3FF0000000000000).toModel.unpack)) := rfl
    _ = .ofModel (.pack x.toModel.unpack) := by rw [hone, hx, hmul]
    _ = x := pack_unpack x

theorem toFloat_eq (n m k : Nat) (hn : n < 2 ^ 53) (hm : m.log2 = 52) (h : m = n * 2 ^ k) :
    n.toUInt64.toFloat = .ofModel (.pack (unpacked .positive m (-k))) := by
  have hn0 : n ≠ 0 := by rintro rfl; rw [Nat.zero_mul] at h; subst h; simp at hm
  have hlog : n.log2 + k = 52 := by rw [← log2_mul_two_pow n k hn0, ← h, hm]
  have hcast : n.toUInt64.toNat = n := by
    rw [UInt64.toNat_ofNat_of_lt']
    exact Nat.lt_trans hn (by decide)
  have hcmp : compare (n : Int) 0 = .gt := by
    rw [Int.compare_eq_gt]
    omega
  have hround : UnpackedFloat.normalize Format.binary64 n 0 .positive =
      unpacked .positive m (-k) := by
    have htarget : Format.binary64.targetExponent (totalExponent n 0) = -k := by
      rw [targetExponent_eq]
      omega
    have hexact := roundWithAccuracy_exact .positive m 0 (-k) hm (by omega)
    simp only [Nat.pow_zero, Nat.mul_one, Nat.cast_zero, Int.sub_zero] at hexact
    simp only [UnpackedFloat.normalize, hcmp, UnpackedFloat.round, Int.toNat_natCast, htarget,
      decreaseExponent]
    rw [show (0 - -(k : Int)).toNat = k by omega, Nat.shiftLeft_eq, ← h, Int.zero_sub, hexact]
  change Float.ofModel
    (.pack (UnpackedFloat.normalize Format.binary64 n.toUInt64.toNat 0 .positive)) = _
  rw [hcast, hround]

theorem nearest_of_lt (n m k : Nat) (hn : n < 2 ^ 53) (hm : m.log2 = 52) (h : m = n * 2 ^ k) :
    nearest n 0 = .ofModel (.pack (unpacked .positive m (-k))) := by
  have hn0 : n ≠ 0 := by rintro rfl; rw [Nat.zero_mul] at h; subst h; simp at hm
  have hlog : n.log2 + k = 52 := by rw [← log2_mul_two_pow n k hn0, ← h, hm]
  have hx := toFloat_eq n m k hn hm h
  obtain ⟨hf, hs, hmant, hexp⟩ := fields_pack .positive m (-k) hm (by omega) (by omega) _ hx
  have hunpack : n.toUInt64.toFloat.toModel.unpack = unpacked .positive m (-k) := by
    rw [unpack_eq, if_neg ((isFinite_iff _).mp hf), hs, hmant, hexp]
  have hfast : nearest n 0 = n.toUInt64.toFloat * Float.ofBits 0x3FF0000000000000 := by
    unfold nearest Float.ofScientific
    rw [dif_pos ⟨hn, by decide⟩]
    rfl
  rw [hfast, mul_one_of_unpack _ m (-k) hm (by omega) hunpack, hx]

theorem nearest_of_le (n : Nat) (hn : 2 ^ 53 ≤ n) :
    nearest n 0 = .ofModel (.pack
      (roundWithAccuracy Format.binary64 .positive (n * 2 ^ 53) (-53) .exact)) := by
  have hslow : nearest n 0 = .ofModel (Float.Model.ofScientific n 0) := by
    unfold nearest Float.ofScientific
    rw [dif_neg (fun h => absurd h.1 (by omega))]
    rfl
  have hn0 : n ≠ 0 := by omega
  rw [hslow, Float.Model.ofScientific, UnpackedFloat.ofScientific, dif_neg hn0,
    if_neg (by decide), if_neg (by change ¬ (0 : Int) < -(2048 + n.log2); omega),
    if_pos (by decide)]
  simp only [UnpackedFloat.mul, Nat.shiftLeft_eq]
  rw [show 10 ^ Int.toNat 0 = 1 from rfl, Nat.mul_one]
  rfl

/-- A number that is rounded up to a power of two is at least half a unit from it. -/
theorem le_of_carry {n k a b : Nat} (ha : a = 54 + b) (hk : b + 53 ≤ k)
    (h : 2 * 2 ^ 53 ≤ n * 2 ^ 53 / 2 ^ k + 1) : 2 ^ a - 2 ^ b ≤ n := by
  have hunits : (2 ^ 54 - 1) * 2 ^ k ≤ n * 2 ^ 53 :=
    (Nat.le_div_iff_mul_le (Nat.two_pow_pos _)).mp (by omega)
  have hscaled : (2 ^ 54 - 1) * 2 ^ b * 2 ^ 53 ≤ n * 2 ^ 53 := by
    rw [Nat.mul_assoc, ← Nat.pow_add]
    exact Nat.le_trans (Nat.mul_le_mul_left _ (Nat.pow_le_pow_right (by decide) hk)) hunits
  rw [ha, Nat.pow_add, ← Nat.sub_one_mul]
  exact Nat.le_of_mul_le_mul_right hscaled (Nat.two_pow_pos _)

/-- Beyond fifty-three bits the mantissa is rounded and the exponent is positive. For an exponent
out of range the number is at least half a unit from the largest finite one. -/
theorem round_large (n : Nat) (hn : 2 ^ 53 ≤ n) : ∃ m : Nat, ∃ e : Int, m.log2 = 52 ∧ 0 ≤ e ∧
    (971 < e → 2 ^ 1024 - 2 ^ 970 ≤ n) ∧
    roundWithAccuracy Format.binary64 .positive (n * 2 ^ 53) (-53) .exact =
      unpacked .positive m e := by
  have hn0 : n ≠ 0 := by omega
  have hlog : 53 ≤ n.log2 := (Nat.le_log2 hn0).mpr hn
  obtain ⟨hlow, hhigh⟩ := (Nat.log2_eq_iff hn0).mp rfl
  have htarget : Format.binary64.targetExponent (totalExponent (n * 2 ^ 53) (-53)) =
      n.log2 - 52 := by
    rw [targetExponent_eq, log2_mul_two_pow n 53 hn0]
    omega
  generalize hem : (⟨n * 2 ^ 53, false, false⟩ : ExtendedMantissa) >>> (n.log2 + 1) = em
  have hfirst : shiftToTargetExponent Format.binary64 (n * 2 ^ 53) (-53) .exact =
      (em, (n.log2 : Int) - 52) := by
    simp only [shiftToTargetExponent, htarget, shiftToExponent,
      ExtendedMantissa.ofMantissaAndAccuracy]
    rw [show ((n.log2 : Int) - 52 - -53).toNat = n.log2 + 1 by omega, hem]
    congr 1
    omega
  have hmant : em.mantissa = n * 2 ^ 53 / 2 ^ (n.log2 + 1) := by rw [← hem, mantissa_shiftRight]
  have hpow : 2 ^ (n.log2 + 1) = 2 ^ n.log2 * 2 := Nat.pow_succ _ _
  have hmlow : 2 ^ 52 ≤ em.mantissa := by
    rw [hmant, Nat.le_div_iff_mul_le (Nat.two_pow_pos _), hpow]
    omega
  have hmhigh : em.mantissa < 2 ^ 53 := by
    rw [hmant, Nat.div_lt_iff_lt_mul (Nat.two_pow_pos _), Nat.mul_comm]
    exact Nat.mul_lt_mul_of_pos_left hhigh (by decide)
  have hround := roundedMantissa_bounds em
  -- the rounded mantissa has fifty-three bits, or it is the power of two after them
  by_cases hcarry : em.roundedMantissa = 2 ^ 53
  · have h := shiftToTargetExponent_exact (2 ^ 52) 1 (n.log2 - 51) Nat.log2_two_pow (by omega)
    rw [show (n.log2 : Int) - 51 - (1 : Nat) = n.log2 - 52 by omega,
      show 2 ^ 52 * 2 ^ 1 = em.roundedMantissa from hcarry.symm] at h
    refine ⟨2 ^ 52, n.log2 - 51, Nat.log2_two_pow, by omega, fun he => ?_,
      roundWithAccuracy_eq hfirst h⟩
    have hhalf := two_mul_roundedMantissa_le
      ((⟨n * 2 ^ 53, false, false⟩ : ExtendedMantissa) >>> n.log2)
    rw [← shiftRight_succ, hem, hcarry, mantissa_shiftRight] at hhalf
    exact le_of_carry rfl (by omega) hhalf
  · have hm : em.roundedMantissa.log2 = 52 := by
      rw [Nat.log2_eq_iff (by omega)]
      omega
    have h := shiftToTargetExponent_exact em.roundedMantissa 0 (n.log2 - 52) hm (by omega)
    simp only [Nat.pow_zero, Nat.mul_one, Nat.cast_zero, Int.sub_zero] at h
    refine ⟨em.roundedMantissa, n.log2 - 52, hm, by omega, fun he => ?_,
      roundWithAccuracy_eq hfirst h⟩
    have hbelow (a b : Nat) (ha : a ≤ n.log2) : 2 ^ a - 2 ^ b ≤ n :=
      Nat.le_trans (Nat.sub_le _ _) (Nat.le_trans (Nat.pow_le_pow_right (by decide) ha) hlow)
    exact hbelow 1024 970 (by omega)

theorem signOf_eq_positive_iff (x : Float) : signOf x = .positive ↔ isNegative x = false := by
  unfold signOf
  cases isNegative x <;> simp

theorem isWhole_iff (x : Float) :
    isWhole x = true ↔ x.isFinite = true ∧
      mantissa x * 2 ^ (exponent x).toNat % 2 ^ (-exponent x).toNat = 0 := by
  simp [isWhole, ratio]

/-- A positive number of at most fifty-three bits is a machine number that holds all of its bits. -/
theorem fields_nearest_of_lt {n : Nat} (hpos : 0 < n) (hn : n < 2 ^ 53) :
    ∃ k : Nat, (nearest n 0).isFinite = true ∧ signOf (nearest n 0) = .positive ∧
      mantissa (nearest n 0) = n * 2 ^ k ∧ exponent (nearest n 0) = -k := by
  have hlog : n.log2 ≤ 52 := Nat.lt_succ_iff.mp ((Nat.log2_lt hpos.ne').mpr hn)
  have hm : (n * 2 ^ (52 - n.log2)).log2 = 52 := by
    rw [log2_mul_two_pow n _ hpos.ne']
    omega
  exact ⟨52 - n.log2, fields_pack .positive _ _ hm (by omega) (by omega) _
    (nearest_of_lt n _ _ hn hm rfl)⟩

/-- The float nearest to a natural number is whole, unless it is infinite. -/
theorem isWhole_nearest (n : Nat) (h : (nearest n 0).isFinite = true) :
    isWhole (nearest n 0) = true ∧ isNegative (nearest n 0) = false := by
  rcases Nat.eq_zero_or_pos n with rfl | hpos
  · have hm : mantissa (nearest 0 0) = 0 := by decide
    refine ⟨(isWhole_iff _).mpr ⟨by decide, ?_⟩, by decide⟩
    rw [hm, Nat.zero_mul, Nat.zero_mod]
  rw [isWhole_iff, ← signOf_eq_positive_iff]
  rcases Nat.lt_or_ge n (2 ^ 53) with hn | hn
  · obtain ⟨k, hf, hs, hmant, hexp⟩ := fields_nearest_of_lt hpos hn
    refine ⟨⟨hf, ?_⟩, hs⟩
    rw [hmant, hexp, Int.neg_neg, Int.toNat_natCast, show (-(k : Int)).toNat = 0 by omega,
      Nat.pow_zero, Nat.mul_one, Nat.mul_mod_left]
  · obtain ⟨m, e, hm, he, -, hround⟩ := round_large n hn
    have hx := nearest_of_le n hn
    rw [hround] at hx
    have he' : e ≤ 971 := by
      by_contra hlt
      rw [hx, not_isFinite_pack .positive m e hm (by omega)] at h
      cases h
    obtain ⟨hf, hs, hmant, hexp⟩ := fields_pack .positive m e hm (by omega) he' _ hx
    refine ⟨⟨hf, ?_⟩, hs⟩
    rw [hexp, show (-e).toNat = 0 by omega, Nat.pow_zero, Nat.mod_one]

/-- A natural number that has no float nearest to it is at least half a unit beyond the largest
one. -/
theorem le_of_ofNat?_eq_none {n : Nat} (h : ofNat? n = none) : 2 ^ 1024 - 2 ^ 970 ≤ n := by
  have hinf : ¬ (nearest n 0).isFinite = true := by
    intro hf
    rw [ofNat?, if_pos hf] at h
    cases h
  rcases Nat.eq_zero_or_pos n with rfl | hpos
  · exact absurd (by decide) hinf
  rcases Nat.lt_or_ge n (2 ^ 53) with hn | hn
  · obtain ⟨_, hf, -⟩ := fields_nearest_of_lt hpos hn
    exact absurd hf hinf
  · obtain ⟨m, e, hm, he, hlarge, hround⟩ := round_large n hn
    have hx := nearest_of_le n hn
    rw [hround] at hx
    refine hlarge ?_
    by_contra hle
    exact hinf (fields_pack .positive m e hm (by omega) (by omega) _ hx).1

/-- A whole number that is not negative is the float nearest to its integer. -/
theorem nearest_floorMagnitude (x : Float) (hw : isWhole x = true) (hs : isNegative x = false) :
    nearest (floorMagnitude x) 0 = x := by
  obtain ⟨hf, hdvd⟩ := (isWhole_iff x).mp hw
  have hE := (isFinite_iff x).mp hf
  have hpos := (signOf_eq_positive_iff x).mpr hs
  have hx := pack_unpack x
  rw [unpack_eq, if_neg hE, hpos] at hx
  have hfloor : floorMagnitude x =
      mantissa x * 2 ^ (exponent x).toNat / 2 ^ (-exponent x).toNat := rfl
  have hfrac := fractionBits_lt x
  have hexp := exponentBits_lt x
  by_cases h0 : exponentBits x = 0
  · -- a number below every power of two is whole only if it is zero
    have hm : mantissa x = fractionBits x := by rw [mantissa, if_pos h0]
    obtain ⟨k, hk, he⟩ : ∃ k : Nat, 52 < k ∧ exponent x = -k :=
      ⟨1074, by decide, by rw [exponent, if_pos h0]; rfl⟩
    have hm0 : mantissa x = 0 := by
      have hlt : mantissa x < 2 ^ k :=
        hm ▸ Nat.lt_trans hfrac (Nat.pow_lt_pow_right (by decide) hk)
      rw [he, Int.neg_neg, Int.toNat_natCast, show (-(k : Int)).toNat = 0 by omega, Nat.pow_zero,
        Nat.mul_one, Nat.mod_eq_of_lt hlt] at hdvd
      exact hdvd
    rw [hfloor, hm0, Nat.zero_mul, Nat.zero_div]
    rw [hm0, unpacked, dif_pos rfl] at hx
    rw [← hx]
    rfl
  have hm : mantissa x = 2 ^ 52 + fractionBits x := by rw [mantissa, if_neg h0]; rfl
  have he : exponent x = exponentBits x - 1075 := by rw [exponent, if_neg h0]
  have hlog : (mantissa x).log2 = 52 := by
    rw [Nat.log2_eq_iff (by omega)]
    omega
  rcases Int.lt_or_le 0 (exponent x) with hlarge | hneg
  · obtain ⟨k, hk⟩ : ∃ k : Nat, exponent x = k := ⟨(exponent x).toNat, by omega⟩
    rw [hk, Int.toNat_natCast, show (-(k : Int)).toNat = 0 by omega, Nat.pow_zero,
      Nat.div_one] at hfloor
    have hle : 2 ^ 53 ≤ floorMagnitude x := by
      rw [hfloor]
      calc 2 ^ 53 = 2 ^ 52 * 2 ^ 1 := rfl
        _ ≤ mantissa x * 2 ^ k :=
            Nat.mul_le_mul (by omega) (Nat.pow_le_pow_right (by decide) (by omega))
    have hround := roundWithAccuracy_exact .positive (mantissa x) (k + 53) k hlog (by omega)
    rw [Nat.pow_add, ← Nat.mul_assoc, ← hfloor,
      show (k : Int) - (k + 53 : Nat) = -53 by omega] at hround
    rw [nearest_of_le _ hle, hround, ← hk, hx]
  · obtain ⟨k, hk⟩ : ∃ k : Nat, exponent x = -k := ⟨(-exponent x).toNat, by omega⟩
    rw [hk, Int.neg_neg, Int.toNat_natCast, show (-(k : Int)).toNat = 0 by omega, Nat.pow_zero,
      Nat.mul_one] at hfloor hdvd
    have hprod : mantissa x = floorMagnitude x * 2 ^ k := by
      rw [hfloor, Nat.div_mul_cancel (Nat.dvd_of_mod_eq_zero hdvd)]
    have hlt : floorMagnitude x < 2 ^ 53 := by
      rw [hfloor]
      exact Nat.lt_of_le_of_lt (Nat.div_le_self _ _) (by omega)
    rw [nearest_of_lt _ _ k hlt hlog hprod, ← hk, hx]

/-- A whole number that is not negative is read back from its digits. -/
theorem ofNat?_floorMagnitude (x : Float) (hw : isWhole x = true) (hs : isNegative x = false) :
    ofNat? (floorMagnitude x) = some x := by
  simp only [ofNat?, nearest_floorMagnitude x hw hs, ((isWhole_iff x).mp hw).1, if_true]

theorem isWhole_of_ofNat? {n : Nat} {x : Float} (h : ofNat? n = some x) :
    isWhole x = true ∧ isNegative x = false := by
  simp only [ofNat?] at h
  split at h
  case isTrue hf =>
    cases h
    exact isWhole_nearest n hf
  case isFalse => cases h

theorem isWhole_neg (x : Float) (h : isWhole x = true) : isWhole (-x) = true := by
  obtain ⟨hf, hdvd⟩ := (isWhole_iff x).mp h
  rw [isWhole_iff, mantissa_neg x hf, exponent_neg x hf]
  exact ⟨isFinite_neg x hf, hdvd⟩

theorem floorMagnitude_neg (x : Float) (hx : x.isFinite = true) :
    floorMagnitude (-x) = floorMagnitude x := by
  rw [floorMagnitude, ratio, mantissa_neg x hx, exponent_neg x hx]
  rfl

/-- A finite number has far fewer digits than the longest run of digits that is read. -/
theorem length_toDigits_floorMagnitude (x : Float) (hx : x.isFinite = true) :
    (Nat.toDigits 10 (floorMagnitude x)).length ≤ 4300 := by
  have hE := (isFinite_iff x).mp hx
  have hlt := exponentBits_lt x
  have hm : mantissa x < 2 ^ 53 := by
    have := fractionBits_lt x
    unfold mantissa leadingBit
    split <;> omega
  obtain ⟨k, hk⟩ : ∃ k, k = (exponent x).toNat := ⟨_, rfl⟩
  have hk971 : k ≤ 971 := by
    unfold exponent at hk
    split at hk <;> omega
  rw [Nat.length_toDigits_le_iff (by decide) (by decide)]
  calc floorMagnitude x
      ≤ mantissa x * 2 ^ k := hk ▸ Nat.div_le_self _ _
    _ < 2 ^ 53 * 2 ^ k := Nat.mul_lt_mul_of_pos_right hm (Nat.two_pow_pos k)
    _ = 2 ^ (53 + k) := (Nat.pow_add 2 53 k).symm
    _ ≤ 10 ^ (53 + k) := Nat.pow_le_pow_left (by decide) _
    _ ≤ 10 ^ 4300 := Nat.pow_le_pow_right (by decide) (by omega)

/-- A whole number of magnitude zero is zero, and so is its opposite. -/
theorem eq_zero_of_floorMagnitude (x : Float) (hw : isWhole x = true) (hs : isNegative x = false)
    (h : floorMagnitude x = 0) : x = 0 := by
  rw [← nearest_floorMagnitude x hw hs, h]
  rfl

end Number

end LineBasic
