import LineBasic.Proofs.Number.Whole

/-!
# The order of machine numbers

Every finite number is a multiple of the least positive one. `units` says how often it holds that
one, so it is an integer that stands for the exact value. Finite numbers are compared by sign,
exponent and mantissa, and the outcome is that of comparing these integers: comparisons are exact,
and the two zeros are equal. A whole number is the integer that it truncates to.
-/

namespace LineBasic

namespace Number

open Float.Model Float.Model.UnpackedFloat

/-- The magnitude of a finite number, counted in the least positive one. -/
def magnitude (x : Float) : Nat :=
  mantissa x * 2 ^ (exponent x + 1074).toNat

/-- The exact value of a finite number, counted in the least positive one. -/
def units (x : Float) : Int :=
  if isNegative x then -(magnitude x : Int) else magnitude x

/-- The number is finite, and its exact value is the integer `n`. -/
def IsInteger (x : Float) (n : Int) : Prop :=
  x.isFinite = true ∧ units x = n * 2 ^ 1074

/-- A mantissa that starts with its leading bit, unless its exponent is the least one. -/
structure Canonical (m : Nat) (e : Int) : Prop where
  least : -1074 ≤ e
  lt : m < 2 ^ 53
  leading : -1074 < e → 2 ^ 52 ≤ m

theorem canonical (x : Float) : Canonical (mantissa x) (exponent x) := by
  have hf := fractionBits_lt x
  unfold mantissa exponent leadingBit
  by_cases h : exponentBits x = 0
  · rw [if_pos h, if_pos h]
    exact ⟨Int.le_refl _, by omega, fun hlt => absurd hlt (Int.lt_irrefl _)⟩
  · rw [if_neg h, if_neg h]
    exact ⟨by omega, by omega, fun _ => by omega⟩

/-- Of two canonical magnitudes with different exponents the one with the smaller exponent is
smaller. -/
theorem Canonical.lt_of_exponent {m₁ m₂ : Nat} {e₁ e₂ : Int} (h₁ : Canonical m₁ e₁)
    (h₂ : Canonical m₂ e₂) (h : e₁ < e₂) :
    m₁ * 2 ^ (e₁ + 1074).toNat < m₂ * 2 ^ (e₂ + 1074).toNat := by
  have hleast := h₁.least
  obtain ⟨k, hk⟩ : ∃ k, (e₂ + 1074).toNat = (e₁ + 1074).toNat + 1 + k :=
    ⟨(e₂ + 1074).toNat - (e₁ + 1074).toNat - 1, by omega⟩
  calc m₁ * 2 ^ (e₁ + 1074).toNat
      < 2 ^ 53 * 2 ^ (e₁ + 1074).toNat := Nat.mul_lt_mul_of_pos_right h₁.lt (Nat.two_pow_pos _)
    _ = 2 ^ 52 * 2 ^ ((e₁ + 1074).toNat + 1) := by rw [Nat.pow_succ 2 (e₁ + 1074).toNat]; omega
    _ ≤ m₂ * 2 ^ ((e₁ + 1074).toNat + 1 + k) :=
        Nat.mul_le_mul (h₂.leading (by omega)) (Nat.pow_le_pow_right (by decide) (by omega))
    _ = m₂ * 2 ^ (e₂ + 1074).toNat := by rw [hk]

/-- Canonical magnitudes are compared by exponent, and by mantissa if the exponents are the same. -/
theorem Canonical.compare_eq {m₁ m₂ : Nat} {e₁ e₂ : Int} (h₁ : Canonical m₁ e₁)
    (h₂ : Canonical m₂ e₂) :
    (compare e₁ e₂).then (compare m₁ m₂) =
      compare (m₁ * 2 ^ (e₁ + 1074).toNat) (m₂ * 2 ^ (e₂ + 1074).toNat) := by
  rcases lt_trichotomy e₁ e₂ with hlt | rfl | hgt
  · rw [compare_lt_iff_lt.mpr hlt, compare_lt_iff_lt.mpr (h₁.lt_of_exponent h₂ hlt)]
    rfl
  · have hmono : StrictMono fun m : Nat => m * 2 ^ (e₁ + 1074).toNat :=
      fun _ _ h => Nat.mul_lt_mul_of_pos_right h (Nat.two_pow_pos _)
    rw [compare_eq_iff_eq.mpr rfl, Ordering.eq_then, ← cmp_eq_compare, ← cmp_eq_compare]
    exact (hmono.cmp_map_eq m₁ m₂).symm
  · rw [compare_gt_iff_gt.mpr hgt, compare_gt_iff_gt.mpr (h₂.lt_of_exponent h₁ hgt)]
    rfl

/-- Integers with one sign are compared by their magnitudes. -/
theorem compare_apply (s : Sign) (a b : Nat) :
    compare (s.apply a) (s.apply b) = match s with
      | .positive => compare a b
      | .negative => (compare a b).swap := by
  cases s with
  | positive =>
      rw [← cmp_eq_compare, ← cmp_eq_compare]
      exact Int.natCast_strictMono.cmp_map_eq a b
  | negative =>
      rw [← cmp_eq_compare, ← cmp_eq_compare, cmp_swap]
      have hanti : StrictAnti fun n : Nat => -(n : Int) :=
        fun _ _ h => Int.neg_lt_neg (Int.ofNat_lt.mpr h)
      exact hanti.cmp_map_eq a b

/-- Unpacked numbers are compared by their exact values. -/
theorem compare_unpacked {m₁ m₂ : Nat} {e₁ e₂ : Int} (h₁ : Canonical m₁ e₁)
    (h₂ : Canonical m₂ e₂) (s₁ s₂ : Sign) :
    (unpacked s₁ m₁ e₁).compare (unpacked s₂ m₂ e₂) =
      some (compare (s₁.apply (m₁ * 2 ^ (e₁ + 1074).toNat : Nat))
        (s₂.apply (m₂ * 2 ^ (e₂ + 1074).toNat : Nat))) := by
  have heq := h₁.compare_eq h₂
  have hzero₁ : m₁ * 2 ^ (e₁ + 1074).toNat = 0 ↔ m₁ = 0 := by simp
  have hzero₂ : m₂ * 2 ^ (e₂ + 1074).toNat = 0 ↔ m₂ = 0 := by simp
  generalize m₁ * 2 ^ (e₁ + 1074).toNat = a₁ at *
  generalize m₂ * 2 ^ (e₂ + 1074).toNat = a₂ at *
  unfold unpacked
  by_cases hm₁ : m₁ = 0 <;> by_cases hm₂ : m₂ = 0
  · rw [dif_pos hm₁, dif_pos hm₂, hzero₁.mpr hm₁, hzero₂.mpr hm₂]
    cases s₁ <;> cases s₂ <;> rfl
  · have ha₂ := Nat.pos_of_ne_zero fun h => hm₂ (hzero₂.mp h)
    rw [dif_pos hm₁, dif_neg hm₂, hzero₁.mpr hm₁, eq_comm]
    cases s₁ <;> cases s₂ <;>
      simp only [UnpackedFloat.compare, Option.some.injEq, compare_iff, Ordering.Compares,
        Sign.apply] <;> omega
  · have ha₁ := Nat.pos_of_ne_zero fun h => hm₁ (hzero₁.mp h)
    rw [dif_neg hm₁, dif_pos hm₂, hzero₂.mpr hm₂, eq_comm]
    cases s₁ <;> cases s₂ <;>
      simp only [UnpackedFloat.compare, Option.some.injEq, compare_iff, Ordering.Compares,
        Sign.apply] <;> omega
  · have ha₁ := Nat.pos_of_ne_zero fun h => hm₁ (hzero₁.mp h)
    have ha₂ := Nat.pos_of_ne_zero fun h => hm₂ (hzero₂.mp h)
    rw [dif_neg hm₁, dif_neg hm₂]
    -- with one sign the fields decide, with two signs the signs alone
    cases s₁ <;> cases s₂ <;>
      simp only [UnpackedFloat.compare, heq, compare_apply, Option.some.injEq]
    all_goals
      rw [eq_comm, compare_iff]
      simp only [Ordering.Compares, Sign.apply]
      omega

theorem apply_signOf (x : Float) (n : Nat) :
    (signOf x).apply n = if isNegative x then -(n : Int) else n := by
  unfold signOf
  cases isNegative x <;> rfl

/-- Finite numbers are compared by their exact values. -/
theorem compare_unpack {x y : Float} (hx : x.isFinite = true) (hy : y.isFinite = true) :
    x.toModel.unpack.compare y.toModel.unpack = some (compare (units x) (units y)) := by
  rw [unpack_eq, if_neg ((isFinite_iff x).mp hx), unpack_eq, if_neg ((isFinite_iff y).mp hy),
    compare_unpacked (canonical x) (canonical y), apply_signOf, apply_signOf]
  rfl

theorem lt_iff_unpack {x y : Float} : x < y ↔ x.toModel.unpack.lt y.toModel.unpack = true := by
  change decide (x.toModel < y.toModel) = true ↔ _
  rw [decide_eq_true_iff]
  rfl

/-- The smaller one of two finite numbers has the smaller exact value. -/
theorem lt_iff {x y : Float} (hx : x.isFinite = true) (hy : y.isFinite = true) :
    x < y ↔ units x < units y := by
  rw [lt_iff_unpack, UnpackedFloat.lt, compare_unpack hx hy, beq_iff_eq, Option.some.injEq,
    compare_lt_iff_lt]

/-- Finite numbers are equal if their exact values are. -/
theorem beq_iff {x y : Float} (hx : x.isFinite = true) (hy : y.isFinite = true) :
    (x == y) = true ↔ units x = units y := by
  change x.toModel.unpack.beq y.toModel.unpack = true ↔ _
  rw [UnpackedFloat.beq, compare_unpack hx hy, beq_iff_eq, Option.some.injEq, compare_eq_iff_eq]

/-- No number is on both sides of zero, be it finite or not. -/
theorem not_pos_of_neg {x : Float} (h : x < 0) : ¬ 0 < x := by
  have hzero : (0 : Float).toModel.unpack = .zero .positive := rfl
  rw [lt_iff_unpack, hzero] at h ⊢
  cases hu : x.toModel.unpack with
  | notANumber =>
      rw [hu] at h
      cases h
  | zero s =>
      rw [hu] at h
      cases h
  | infinity s =>
      rw [hu] at h
      cases s with
      | positive => cases h
      | negative => exact Bool.false_ne_true
  | finite s =>
      rw [hu] at h
      cases s with
      | positive => cases h
      | negative => exact Bool.false_ne_true

/-- An equation between shifted numbers, with the shifts moved to the other sides. -/
theorem mul_pow_eq_of_add_eq {m n a b c k : Nat} (hadd : a + b = c + k)
    (h : n * 2 ^ b = m * 2 ^ c) : m * 2 ^ a = n * 2 ^ k := by
  refine Nat.eq_of_mul_eq_mul_right (Nat.two_pow_pos b) ?_
  calc m * 2 ^ a * 2 ^ b = m * 2 ^ (c + k) := by rw [Nat.mul_assoc, ← Nat.pow_add, hadd]
    _ = m * 2 ^ c * 2 ^ k := by rw [Nat.pow_add, Nat.mul_assoc]
    _ = n * 2 ^ k * 2 ^ b := by rw [← h, Nat.mul_right_comm]

/-- A whole number is the integer that it truncates to. -/
theorem isInteger_truncated {x : Float} (h : isWhole x = true) : IsInteger x (truncated x) := by
  obtain ⟨hfinite, hmod⟩ := (isWhole_iff x).mp h
  have hleast := (canonical x).least
  have hfloor : floorMagnitude x * 2 ^ (-exponent x).toNat = mantissa x * 2 ^ (exponent x).toNat :=
    Nat.div_mul_cancel (Nat.dvd_of_mod_eq_zero hmod)
  have hmagnitude : magnitude x = floorMagnitude x * 2 ^ 1074 :=
    mul_pow_eq_of_add_eq (by omega) hfloor
  refine ⟨hfinite, ?_⟩
  unfold units truncated
  split <;> rw [hmagnitude, Nat.cast_mul, Nat.cast_pow]
  · exact (Int.neg_mul _ _).symm
  · rfl

theorem isInteger_zero : IsInteger 0 0 :=
  ⟨by decide +kernel, by decide +kernel⟩

/-- Numbers that are integers are compared like these. -/
theorem IsInteger.lt_iff {x y : Float} {a b : Int} (hx : IsInteger x a) (hy : IsInteger y b) :
    x < y ↔ a < b := by
  rw [Number.lt_iff hx.1 hy.1, hx.2, hy.2]
  exact mul_lt_mul_iff_of_pos_right (by positivity)

end Number

end LineBasic
