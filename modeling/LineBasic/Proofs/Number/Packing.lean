import Mathlib
import LineBasic.Number.Binary

/-!
# Bits of a machine number

Sign, mantissa and exponent of a number are read off its bits; arithmetic works on unpacked
numbers. This module relates the two: what a number unpacks to in terms of its fields, and what the
fields of a finite number are when it is packed with another sign. It follows that the opposite of a
finite number has the other sign and the same magnitude.
-/

namespace LineBasic

namespace Number

open Float.Model Float.Model.UnpackedFloat

theorem toNat_unpackMantissa (b : BitVec 64) :
    (@unpackMantissa Format.binary64 b).toNat = b.toNat % 2 ^ 52 := by
  simp [unpackMantissa, BitVec.extractLsb_toNat]

theorem toNat_unpackExponent (b : BitVec 64) :
    (@unpackExponent Format.binary64 b).toNat = b.toNat / 2 ^ 52 % 2 ^ 11 := by
  simp [unpackExponent, BitVec.extractLsb_toNat, Nat.shiftRight_eq_div_pow]

theorem toNat_unpackSign (b : BitVec 64) :
    (@unpackSign Format.binary64 b).toNat = b.toNat / 2 ^ 63 % 2:= by
  simp [unpackSign, BitVec.extractLsb_toNat, Nat.shiftRight_eq_div_pow]

theorem toNat_packComponents (s : Sign) (e : BitVec 11) (m : BitVec 52) :
    (packComponents Format.binary64 s e m).toNat =
      s.toBitVec.toNat * 2 ^ 63 + e.toNat * 2 ^ 52 + m.toNat := by
  have he := e.isLt
  have hm := m.isLt
  simp only [packComponents, BitVec.toNat_append]
  rw [← Nat.shiftLeft_add_eq_or_of_lt he, ← Nat.shiftLeft_add_eq_or_of_lt hm]
  simp only [Nat.shiftLeft_eq]
  ring

/-- The sign of a number. -/
def signOf (x : Float) : Sign :=
  if isNegative x then .negative else .positive

/-- The unpacked number with the given sign, mantissa and exponent. -/
def unpacked (s : Sign) (m : Nat) (e : Int) : UnpackedFloat :=
  if h : m = 0 then .zero s else .finite s m e (Nat.pos_of_ne_zero h)

theorem ofBitVec_unpackSign (x : Float) :
    Sign.ofBitVec (@unpackSign Format.binary64 x.toModel.toBits.toBitVec) = signOf x := by
  have hs := toNat_unpackSign x.toModel.toBits.toBitVec
  have hlt := x.toModel.toBits.toBitVec.isLt
  simp only [Sign.ofBitVec, signOf, isNegative, Float.toBits]
  generalize @unpackSign Format.binary64 x.toModel.toBits.toBitVec = u at *
  have hu : u = 0#1 ↔ u.toNat = 0 := by simp [← BitVec.toNat_inj]
  simp only [hu, hs, UInt64.toNat_toBitVec] at *
  by_cases h : 9223372036854775808 ≤ x.toModel.toBits.toNat
  · rw [if_neg (by omega)]; simp [h]
  · rw [if_pos (by omega)]; simp [h]

theorem finite_eq_unpacked (s : Sign) {m m' : Nat} {e e' : Int} (h : 0 < m) (hm : m = m')
    (he : e = e') : UnpackedFloat.finite s m e h = unpacked s m' e' := by
  subst hm he
  rw [unpacked, dif_neg (Nat.pos_iff_ne_zero.mp h)]

/-- A number unpacked. -/
theorem unpack_eq (x : Float) :
    x.toModel.unpack =
      if exponentBits x = 2047 then
        if fractionBits x = 0 then .infinity (signOf x) else .notANumber
      else unpacked (signOf x) (mantissa x) (exponent x) := by
  have hm : (@unpackMantissa Format.binary64 x.toModel.toBits.toBitVec).toNat =
      fractionBits x := toNat_unpackMantissa _
  have he : (@unpackExponent Format.binary64 x.toModel.toBits.toBitVec).toNat =
      exponentBits x := toNat_unpackExponent _
  have hmlt := (@unpackMantissa Format.binary64 x.toModel.toBits.toBitVec).isLt
  have h1 : @unpackExponent Format.binary64 x.toModel.toBits.toBitVec = -1#_ ↔
      exponentBits x = 2047 := by
    rw [← he, ← BitVec.toNat_inj]; rfl
  have h0 : @unpackExponent Format.binary64 x.toModel.toBits.toBitVec = 0#_ ↔
      exponentBits x = 0 := by
    rw [← he, ← BitVec.toNat_inj]; rfl
  have hm0 : @unpackMantissa Format.binary64 x.toModel.toBits.toBitVec = 0#_ ↔
      fractionBits x = 0 := by
    rw [← hm, ← BitVec.toNat_inj]; rfl
  have happ : ((1#1 : BitVec 1) ++
        @unpackMantissa Format.binary64 x.toModel.toBits.toBitVec).toNat =
      leadingBit + fractionBits x := by
    rw [BitVec.toNat_append, ← Nat.shiftLeft_add_eq_or_of_lt hmlt, hm]
    rfl
  have hbias : (Format.binary64.exponentBias : Int) + Format.binary64.mantissaBitsWithoutImplicit =
      1075 := rfl
  unfold Float.Model.unpack UnpackedFloat.unpack
  simp only [ofBitVec_unpackSign]
  by_cases c1 : exponentBits x = 2047
  · rw [if_pos (h1.mpr c1), if_pos c1]
    by_cases c2 : fractionBits x = 0
    · rw [if_pos (hm0.mpr c2), if_pos c2]
    · rw [if_neg (fun h => c2 (hm0.mp h)), if_neg c2]
  · rw [if_neg (fun h => c1 (h1.mp h)), if_neg c1]
    by_cases c0 : exponentBits x = 0
    · rw [if_pos (h0.mpr c0)]
      by_cases c2 : fractionBits x = 0
      · rw [dif_pos (hm0.mpr c2), mantissa, if_pos c0, c2, unpacked, dif_pos rfl]
      · rw [dif_neg (fun h => c2 (hm0.mp h))]
        apply finite_eq_unpacked
        · rw [hm, mantissa, if_pos c0]
        · rw [he, c0, exponent, if_pos c0, hbias]
          rfl
    · rw [if_neg (fun h => c0 (h0.mp h))]
      apply finite_eq_unpacked
      · rw [happ, mantissa, if_neg c0]
      · rw [he, exponent, if_neg c0, hbias]

theorem fractionBits_lt (x : Float) : fractionBits x < 2 ^ 52 :=
  Nat.mod_lt _ (by decide)

theorem exponentBits_lt (x : Float) : exponentBits x < 2 ^ 11 :=
  Nat.mod_lt _ (by decide)

theorem isFinite_iff (x : Float) : x.isFinite = true ↔ exponentBits x ≠ 2047 := by
  change x.toModel.unpack.isFinite = true ↔ _
  rw [unpack_eq]
  by_cases h : exponentBits x = 2047
  · rw [if_pos h]
    split <;> simp [UnpackedFloat.isFinite, h]
  · rw [if_neg h, unpacked]
    split <;> simp [UnpackedFloat.isFinite, h]

/-- The bits of a finite number packed again, with any sign. -/
theorem toNat_pack_unpacked (x : Float) (hx : exponentBits x ≠ 2047) (s : Sign) :
    (UnpackedFloat.pack Format.binary64 (unpacked s (mantissa x) (exponent x))).toNat =
      s.toBitVec.toNat * 2 ^ 63 + exponentBits x * 2 ^ 52 + fractionBits x := by
  have hf := fractionBits_lt x
  have he := exponentBits_lt x
  by_cases h0 : mantissa x = 0
  · have : exponentBits x = 0 ∧ fractionBits x = 0 := by
      unfold mantissa leadingBit at h0
      split at h0 <;> omega
    rw [unpacked, dif_pos h0, this.1, this.2]
    exact toNat_packComponents s 0 0
  · rw [unpacked, dif_neg h0]
    simp only [UnpackedFloat.pack]
    have hb : (exponent x + Format.binary64.exponentBias +
        Format.binary64.mantissaBitsWithoutImplicit).toNat =
          if exponentBits x = 0 then 1 else exponentBits x := by
      rw [show (Format.binary64.exponentBias : Int) = 1023 from rfl,
        show (Format.binary64.mantissaBitsWithoutImplicit : Int) = 52 from rfl, exponent]
      split <;> omega
    rw [hb, if_neg (by split <;> omega)]
    by_cases c0 : exponentBits x = 0
    · have hm : mantissa x = fractionBits x := by rw [mantissa, if_pos c0]
      have hlog : (mantissa x).log2 < 52 := (Nat.log2_lt h0).mpr (hm ▸ hf)
      rw [if_neg (by change ¬ _ = 53; omega), toNat_packComponents, c0, hm]
      simp only [BitVec.toNat_ofNat, Nat.zero_mod, Nat.zero_mul, Nat.add_zero]
      omega
    · have hm : mantissa x = 2 ^ 52 + fractionBits x := by rw [mantissa, if_neg c0]; rfl
      have hlog : (mantissa x).log2 = 52 := by
        rw [Nat.log2_eq_iff h0]
        omega
      rw [if_pos (by rw [hlog]; rfl), toNat_packComponents, if_neg c0, hm]
      simp only [BitVec.toNat_ofNat]
      omega

theorem fields_of_toNat {y : Float} {s : Sign} {e f : Nat}
    (h : y.toBits.toNat = s.toBitVec.toNat * 2 ^ 63 + e * 2 ^ 52 + f) (he : e < 2 ^ 11)
    (hf : f < 2 ^ 52) : signOf y = s ∧ exponentBits y = e ∧ fractionBits y = f := by
  have hs : s.toBitVec.toNat < 2 := s.toBitVec.isLt
  refine ⟨?_, ?_, ?_⟩
  · unfold signOf isNegative
    rw [h]
    cases s with
    | negative =>
        rw [if_pos]
        simp only [Sign.toBitVec, BitVec.toNat_ofNat, decide_eq_true_eq]
        omega
    | positive =>
        rw [if_neg]
        simp only [Sign.toBitVec, BitVec.toNat_ofNat, decide_eq_true_eq]
        omega
  · unfold exponentBits leadingBit
    rw [h]
    omega
  · unfold fractionBits leadingBit
    rw [h]
    omega

/-- The opposite of a finite number: the other sign and the same magnitude. -/
theorem fields_neg (x : Float) (hx : x.isFinite = true) :
    signOf (-x) = -signOf x ∧ exponentBits (-x) = exponentBits x ∧
      fractionBits (-x) = fractionBits x := by
  have he := (isFinite_iff x).mp hx
  refine fields_of_toNat ?_ (exponentBits_lt x) (fractionBits_lt x)
  change (UnpackedFloat.pack Format.binary64 x.toModel.unpack.neg).toNat = _
  rw [unpack_eq, if_neg he, ← toNat_pack_unpacked x he]
  congr 2
  unfold unpacked
  split <;> rfl

/-- Packing what a number unpacks to gives it back. -/
theorem pack_unpack (x : Float) : Float.ofModel (.pack x.toModel.unpack) = x :=
  Float.toBits_inj.mp (UInt64.toBitVec_inj.mp (pack_unpack_of_valid x.toModel.valid))

/-- The opposite of a finite number is finite. -/
theorem isFinite_neg (x : Float) (hx : x.isFinite = true) : (-x).isFinite = true := by
  rw [isFinite_iff, (fields_neg x hx).2.1]
  exact (isFinite_iff x).mp hx

theorem mantissa_neg (x : Float) (hx : x.isFinite = true) : mantissa (-x) = mantissa x := by
  obtain ⟨-, he, hf⟩ := fields_neg x hx
  rw [mantissa, mantissa, he, hf]

theorem exponent_neg (x : Float) (hx : x.isFinite = true) : exponent (-x) = exponent x := by
  rw [exponent, exponent, (fields_neg x hx).2.1]

theorem isNegative_neg (x : Float) (hx : x.isFinite = true) :
    isNegative (-x) = !isNegative x := by
  have hs := (fields_neg x hx).1
  unfold signOf at hs
  cases h : isNegative x <;> cases h' : isNegative (-x) <;> rw [h, h'] at hs <;>
    first | rfl | cases hs

/-- A finite number equals itself. -/
theorem beq_self (x : Float) (hx : x.isFinite = true) : (x == x) = true := by
  rw [Float.beq_self_iff]
  rintro rfl
  exact absurd hx (by decide +kernel)

end Number

end LineBasic
