import Mathlib.Data.Int.Log
import Mathlib.Data.Rat.Floor
import Mathlib.Algebra.Order.Ring.Rat
import Mathlib.Tactic.Linarith
import Mathlib.Tactic.Ring

/-!
# Decimal arithmetic with a fixed number of digits

A decimal context keeps the most significant digits of a result and rounds the rest half to even. The
range of the exponent is left out. What has no more digits than the context is kept, and the rounding
is monotone, so it never crosses such a number.
-/

namespace SphereFx

/-! ### Rounding to an integer -/

/-- The nearest integer, the even one of two. -/
def roundHalfEven (q : ℚ) : ℤ :=
  if Int.fract q < 1 / 2 then ⌊q⌋
  else if 1 / 2 < Int.fract q then ⌊q⌋ + 1
  else if ⌊q⌋ % 2 = 0 then ⌊q⌋ else ⌊q⌋ + 1

theorem floor_le_roundHalfEven (q : ℚ) : ⌊q⌋ ≤ roundHalfEven q := by
  unfold roundHalfEven
  split_ifs <;> omega

theorem roundHalfEven_le_floor (q : ℚ) : roundHalfEven q ≤ ⌊q⌋ + 1 := by
  unfold roundHalfEven
  split_ifs <;> omega

@[simp] theorem roundHalfEven_intCast (k : ℤ) : roundHalfEven k = k := by
  rw [roundHalfEven, Int.fract_intCast, if_pos (by norm_num), Int.floor_intCast]

theorem roundHalfEven_mono {x y : ℚ} (h : x ≤ y) : roundHalfEven x ≤ roundHalfEven y := by
  rcases (Int.floor_mono h).lt_or_eq with hlt | heq
  · have hx := roundHalfEven_le_floor x
    have hy := floor_le_roundHalfEven y
    omega
  · have hfract : Int.fract x ≤ Int.fract y := by
      unfold Int.fract
      rw [heq]
      linarith
    unfold roundHalfEven
    rw [heq]
    split_ifs <;> first | omega | linarith

theorem roundHalfEven_neg (q : ℚ) : roundHalfEven (-q) = -roundHalfEven q := by
  by_cases hint : Int.fract q = 0
  · have hq : q = ⌊q⌋ := by
      have hsum := Int.floor_add_fract q
      linarith
    rw [hq, ← Int.cast_neg, roundHalfEven_intCast, roundHalfEven_intCast]
  · have hfract : Int.fract (-q) = 1 - Int.fract q := Int.fract_neg hint
    have hfloor : ⌊-q⌋ = -⌊q⌋ - 1 := by
      have hsum := Int.floor_add_fract q
      have hsum' := Int.floor_add_fract (-q)
      have hcast : (⌊-q⌋ : ℚ) = -⌊q⌋ - 1 := by linarith
      exact_mod_cast hcast
    unfold roundHalfEven
    rw [hfract, hfloor]
    split_ifs <;> first | omega | linarith

/-! ### Rounding to significant digits -/

/-- The exponent of the last of the most significant digits. -/
def lastPlace (digits : ℕ) (q : ℚ) : ℤ := Int.log 10 |q| + 1 - digits

/-- Rounded half to even to its most significant digits. -/
def roundDigits (digits : ℕ) (q : ℚ) : ℚ :=
  roundHalfEven (q / 10 ^ lastPlace digits q) * 10 ^ lastPlace digits q

/-- An integer of that many digits times a power of ten. -/
def HasDigits (digits : ℕ) (q : ℚ) : Prop :=
  ∃ k e : ℤ, |k| < 10 ^ digits ∧ q = k * 10 ^ e

section Rounding

variable {digits : ℕ} {q x y : ℚ}

theorem zpow_lastPlace_pos (digits : ℕ) (q : ℚ) : (0 : ℚ) < 10 ^ lastPlace digits q :=
  zpow_pos (by norm_num) _

theorem roundDigits_neg (digits : ℕ) (q : ℚ) : roundDigits digits (-q) = -roundDigits digits q := by
  unfold roundDigits lastPlace
  rw [abs_neg, neg_div, roundHalfEven_neg, Int.cast_neg, neg_mul]

@[simp] theorem roundDigits_zero (digits : ℕ) : roundDigits digits 0 = 0 := by
  have hzero : roundHalfEven 0 = 0 := roundHalfEven_intCast 0
  rw [roundDigits, zero_div, hzero, Int.cast_zero, zero_mul]

/-- What has few enough digits is not changed. -/
theorem roundDigits_of_hasDigits (h : HasDigits digits q) : roundDigits digits q = q := by
  obtain ⟨k, e, hk, rfl⟩ := h
  by_cases hzero : k = 0
  · rw [hzero, Int.cast_zero, zero_mul, roundDigits_zero]
  · have hten : (1 : ℚ) < 10 := by norm_num
    have hpow : (0 : ℚ) < 10 ^ e := zpow_pos (by norm_num) e
    have hne : (k : ℚ) * 10 ^ e ≠ 0 := mul_ne_zero (Int.cast_ne_zero.mpr hzero) hpow.ne'
    have hlog : (10 : ℚ) ^ Int.log 10 |(k : ℚ) * 10 ^ e| ≤ |(k : ℚ) * 10 ^ e| :=
      Int.zpow_log_le_self (by norm_num) (abs_pos.mpr hne)
    have hbound : |(k : ℚ) * 10 ^ e| < 10 ^ ((digits : ℤ) + e) := by
      rw [abs_mul, abs_of_pos hpow, zpow_add₀ (by norm_num), zpow_natCast]
      exact mul_lt_mul_of_pos_right (by exact_mod_cast hk) hpow
    have hplace : lastPlace digits (k * 10 ^ e) ≤ e := by
      have hlt := (zpow_lt_zpow_iff_right₀ hten).mp (hlog.trans_lt hbound)
      unfold lastPlace
      omega
    obtain ⟨shift, hshift⟩ := Int.eq_ofNat_of_zero_le (sub_nonneg.mpr hplace)
    have hscaled : (k : ℚ) * 10 ^ e / 10 ^ lastPlace digits (k * 10 ^ e) =
        ((k * 10 ^ shift : ℤ) : ℚ) := by
      rw [mul_div_assoc, ← zpow_sub₀ (by norm_num), hshift, Int.cast_mul, Int.cast_pow]
      rfl
    rw [roundDigits, hscaled, roundHalfEven_intCast, ← hscaled,
      div_mul_cancel₀ _ (zpow_lastPlace_pos _ _).ne']

theorem roundDigits_nonneg (h : 0 ≤ q) : 0 ≤ roundDigits digits q := by
  have hscaled : ((0 : ℤ) : ℚ) ≤ q / 10 ^ lastPlace digits q := by
    rw [Int.cast_zero]
    exact div_nonneg h (zpow_lastPlace_pos _ _).le
  have hround := roundHalfEven_mono hscaled
  rw [roundHalfEven_intCast] at hround
  exact mul_nonneg (Int.cast_nonneg hround) (zpow_lastPlace_pos _ _).le

/-- A positive number stays between the powers of ten around it. -/
theorem roundDigits_between (hdigits : 0 < digits) (h : 0 < q) :
    (10 : ℚ) ^ Int.log 10 q ≤ roundDigits digits q ∧
      roundDigits digits q ≤ 10 ^ (Int.log 10 q + 1) := by
  obtain ⟨rest, rfl⟩ := Nat.exists_eq_succ_of_ne_zero hdigits.ne'
  have hten : (10 : ℚ) ≠ 0 := by norm_num
  have hpos := zpow_lastPlace_pos (rest + 1) q
  have hplace : lastPlace (rest + 1) q = Int.log 10 q - rest := by
    unfold lastPlace
    rw [abs_of_pos h]
    push_cast
    ring
  have hlower : (10 : ℚ) ^ Int.log 10 q =
      ((10 ^ rest : ℤ) : ℚ) * 10 ^ lastPlace (rest + 1) q := by
    rw [hplace, Int.cast_pow, ← zpow_natCast, Int.cast_ofNat, ← zpow_add₀ hten]
    congr 1
    ring
  have hupper : (10 : ℚ) ^ (Int.log 10 q + 1) =
      ((10 ^ (rest + 1) : ℤ) : ℚ) * 10 ^ lastPlace (rest + 1) q := by
    rw [hplace, Int.cast_pow, ← zpow_natCast, Int.cast_ofNat, ← zpow_add₀ hten]
    congr 1
    push_cast
    ring
  have hlog : (10 : ℚ) ^ Int.log 10 q ≤ q := Int.zpow_log_le_self (by norm_num) h
  have hlog' : q < 10 ^ (Int.log 10 q + 1) := Int.lt_zpow_succ_log_self (by norm_num) q
  rw [hlower, ← le_div_iff₀ hpos] at hlog
  rw [hupper, ← div_lt_iff₀ hpos] at hlog'
  have hdown := roundHalfEven_mono hlog
  have hup := roundHalfEven_mono hlog'.le
  rw [roundHalfEven_intCast] at hdown hup
  rw [hlower, hupper, roundDigits]
  exact ⟨mul_le_mul_of_nonneg_right (Int.cast_le.mpr hdown) hpos.le,
    mul_le_mul_of_nonneg_right (Int.cast_le.mpr hup) hpos.le⟩

theorem roundDigits_mono_of_pos (hdigits : 0 < digits) (hx : 0 < x) (h : x ≤ y) :
    roundDigits digits x ≤ roundDigits digits y := by
  have hy : 0 < y := hx.trans_le h
  rcases (Int.log_mono_right hx h : Int.log 10 x ≤ Int.log 10 y).lt_or_eq with hlt | heq
  · have hpow : (10 : ℚ) ^ (Int.log 10 x + 1) ≤ 10 ^ Int.log 10 y :=
      zpow_le_zpow_right₀ (by norm_num) hlt
    exact ((roundDigits_between hdigits hx).2.trans hpow).trans (roundDigits_between hdigits hy).1
  · have hplace : lastPlace digits x = lastPlace digits y := by
      unfold lastPlace
      rw [abs_of_pos hx, abs_of_pos hy, heq]
    have hpos := zpow_lastPlace_pos digits y
    unfold roundDigits
    rw [hplace]
    apply mul_le_mul_of_nonneg_right _ hpos.le
    exact Int.cast_le.mpr (roundHalfEven_mono (div_le_div_of_nonneg_right h hpos.le))

theorem roundDigits_mono (hdigits : 0 < digits) (h : x ≤ y) :
    roundDigits digits x ≤ roundDigits digits y := by
  rcases lt_or_ge 0 x with hx | hx
  · exact roundDigits_mono_of_pos hdigits hx h
  · rcases lt_or_ge y 0 with hy | hy
    · have hneg := roundDigits_mono_of_pos hdigits (neg_pos.mpr hy) (neg_le_neg h)
      rw [roundDigits_neg, roundDigits_neg] at hneg
      exact neg_le_neg_iff.mp hneg
    · have hlow : 0 ≤ roundDigits digits (-x) := roundDigits_nonneg (neg_nonneg.mpr hx)
      rw [roundDigits_neg, neg_nonneg] at hlow
      exact hlow.trans (roundDigits_nonneg hy)

theorem le_roundDigits (hdigits : 0 < digits) (hx : HasDigits digits x) (h : x ≤ q) :
    x ≤ roundDigits digits q := by
  rw [← roundDigits_of_hasDigits hx]
  exact roundDigits_mono hdigits h

theorem roundDigits_le (hdigits : 0 < digits) (hx : HasDigits digits x) (h : q ≤ x) :
    roundDigits digits q ≤ x := by
  rw [← roundDigits_of_hasDigits hx]
  exact roundDigits_mono hdigits h

end Rounding

end SphereFx
