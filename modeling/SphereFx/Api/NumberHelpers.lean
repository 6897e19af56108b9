import SphereFx.Base.Decimal
import SphereFx.Api.Route

/-!
# Lots in the decimal context of `number_helpers.py`

`normalize_lot` divides the clamped lot by the step, rounds the quotient with `decimal_round` and
multiplies by the step again. The rounding is to two places and not to whole steps, so the result is a
multiple of a hundredth of the step. Every operation rounds to the 28 digits of the context.
-/

namespace SphereFx.Api

/-- What the decimal context signals. -/
inductive DecimalError where
  | invalidOperation
  | divisionByZero
  deriving DecidableEq, Repr

namespace DecimalContext

/-- `getcontext().prec`. -/
def prec : ℕ := 28

/-- `a / b`. -/
def div (a b : ℚ) : Except DecimalError ℚ :=
  if b = 0 then .error (if a = 0 then .invalidOperation else .divisionByZero)
  else .ok (roundDigits prec (a / b))

/-- `a * b`. -/
def mul (a b : ℚ) : ℚ := roundDigits prec (a * b)

/-- `quantize` with `ROUND_HALF_UP`, which fails on a result of too many digits. -/
def quantize (value : ℚ) (places : ℕ) : Except DecimalError ℚ :=
  let rounded := Api.decimalRound value places
  if |rounded| * 10 ^ places < 10 ^ prec then .ok rounded else .error .invalidOperation

/-- `decimal_round` of a `Decimal`. -/
def decimalRound (value : ℚ) (places : ℕ) : Except DecimalError ℚ := quantize value places

def normalizeLot (lot minLot maxLot step : ℚ) : Except DecimalError ℚ := do
  let lot := if lot < minLot then minLot else lot
  let lot := if lot > maxLot then maxLot else lot
  -- The number of places is the default of `decimal_round`.
  let steps ← decimalRound (← div lot step) 2
  return mul steps step

end DecimalContext

/-- The lot clamped to its bounds. -/
def clampLot (lot minLot maxLot : ℚ) : ℚ := min maxLot (max minLot lot)

/-- A positive step and bounds on its grid, so small that a hundredth of a step is still a digit of the
context. -/
structure LotRange (minLot maxLot step : ℚ) : Prop where
  positive : 0 < step
  least : ∃ n : ℤ, minLot = n * step
  greatest : ∃ n : ℤ, maxLot = n * step
  order : minLot ≤ maxLot
  precision : ∃ (units : ℕ) (e : ℤ), step = units * 10 ^ e ∧ |minLot| < 10 ^ 26 * 10 ^ e ∧
    |maxLot| < 10 ^ 26 * 10 ^ e

/-- A lot on the grid of the step and within the bounds, at most half a step from the clamped lot and
kept by another normalisation. -/
structure Tradable (lot minLot maxLot step result : ℚ) : Prop where
  multiple : ∃ n : ℤ, result = n * step
  least : minLot ≤ result
  greatest : result ≤ maxLot
  near : |result - clampLot lot minLot maxLot| ≤ step / 2
  again : DecimalContext.normalizeLot result minLot maxLot step = .ok result

/-- The number of steps, with the digits of the context, rounds to a whole number at two places. -/
def NearWholeSteps (steps : ℚ) : Prop :=
  ∃ n : ℕ, n - 1 / 200 ≤ |roundDigits DecimalContext.prec steps| ∧
    |roundDigits DecimalContext.prec steps| < n + 1 / 200

/-! ### Two places -/

section Places

variable {q : ℚ}

/-- The hundredths `decimal_round` leaves. -/
def hundredths (q : ℚ) : ℤ :=
  if q < 0 then -⌊|q| * 100 + 1 / 2⌋ else ⌊|q| * 100 + 1 / 2⌋

theorem decimalRound_two (q : ℚ) : decimalRound q 2 = hundredths q / 100 := by
  have hsquare : (10 : ℚ) ^ 2 = 100 := by norm_num
  unfold decimalRound hundredths
  rw [hsquare]
  split
  · rw [Int.cast_neg]
  · rfl

theorem abs_hundredths_sub_le (q : ℚ) : |(hundredths q : ℚ) - q * 100| ≤ 1 / 2 := by
  have hfloor := Int.floor_le (|q| * 100 + 1 / 2)
  have hfloor' := Int.lt_floor_add_one (|q| * 100 + 1 / 2)
  unfold hundredths
  rw [abs_le]
  split
  · rename_i hneg
    rw [abs_of_neg hneg] at hfloor hfloor' ⊢
    rw [Int.cast_neg]
    exact ⟨by linarith, by linarith⟩
  · rename_i hnonneg
    rw [abs_of_nonneg (not_lt.mp hnonneg)] at hfloor hfloor' ⊢
    exact ⟨by linarith, by linarith⟩

theorem le_hundredths {n : ℤ} (h : n ≤ q) : 100 * n ≤ hundredths q := by
  have hnear := abs_le.mp (abs_hundredths_sub_le q)
  have hlt : ((100 * n - 1 : ℤ) : ℚ) < hundredths q := by
    push_cast
    linarith [hnear.1]
  have hint := Int.cast_lt.mp hlt
  omega

theorem hundredths_le {n : ℤ} (h : q ≤ n) : hundredths q ≤ 100 * n := by
  have hnear := abs_le.mp (abs_hundredths_sub_le q)
  have hlt : (hundredths q : ℚ) < ((100 * n + 1 : ℤ) : ℚ) := by
    push_cast
    linarith [hnear.2]
  have hint := Int.cast_lt.mp hlt
  omega

private theorem hundredths_whole_iff (q : ℚ) : (∃ n : ℤ, hundredths q = 100 * n) ↔
    ∃ n : ℕ, n - 1 / 200 ≤ |q| ∧ |q| < n + 1 / 200 := by
  have hnonneg : 0 ≤ ⌊|q| * 100 + 1 / 2⌋ := by
    apply Int.floor_nonneg.mpr
    linarith [abs_nonneg q]
  have hsign : (∃ n : ℤ, hundredths q = 100 * n) ↔ ∃ n : ℕ, ⌊|q| * 100 + 1 / 2⌋ = 100 * (n : ℤ) := by
    unfold hundredths
    split
    · refine ⟨fun ⟨n, hn⟩ => ⟨(-n).toNat, ?_⟩, fun ⟨n, hn⟩ => ⟨-n, ?_⟩⟩ <;> omega
    · refine ⟨fun ⟨n, hn⟩ => ⟨n.toNat, ?_⟩, fun ⟨n, hn⟩ => ⟨n, ?_⟩⟩ <;> omega
  rw [hsign]
  apply exists_congr
  intro n
  rw [Int.floor_eq_iff]
  push_cast
  refine ⟨fun h => ⟨by linarith [h.1], by linarith [h.2]⟩,
    fun h => ⟨by linarith [h.1], by linarith [h.2]⟩⟩

end Places

/-! ### The clamp and the quotient -/

section Lots

variable {lot minLot maxLot step : ℚ}

theorem clampLot_eq :
    (if (if lot < minLot then minLot else lot) > maxLot then maxLot
      else if lot < minLot then minLot else lot) = clampLot lot minLot maxLot := by
  have hraise : (if lot < minLot then minLot else lot) = max minLot lot := by
    rw [max_comm, max_def_lt]
  rw [hraise, clampLot, min_def_lt]

theorem clampLot_of_between (hlow : minLot ≤ lot) (hhigh : lot ≤ maxLot) :
    clampLot lot minLot maxLot = lot := by
  rw [clampLot, max_eq_right hlow, min_eq_right hhigh]

private theorem le_clampLot (hle : minLot ≤ maxLot) : minLot ≤ clampLot lot minLot maxLot :=
  le_min hle (le_max_left _ _)

private theorem clampLot_le : clampLot lot minLot maxLot ≤ maxLot := min_le_left _ _

theorem hasDigits_hundredths {k : ℤ} (h : |k| < 10 ^ 28) :
    HasDigits DecimalContext.prec (k / 100) := by
  refine ⟨k, -2, h, ?_⟩
  norm_num
  ring

/-- Rounding the quotient to the context's digits moves it by at most a hundredth and not across a
whole number. -/
theorem roundDigits_steps {steps : ℚ} {a b : ℤ} (ha : |a| < 10 ^ 26) (hb : |b| < 10 ^ 26)
    (hlow : a ≤ steps) (hhigh : steps ≤ b) :
    a ≤ roundDigits DecimalContext.prec steps ∧ roundDigits DecimalContext.prec steps ≤ b ∧
      |roundDigits DecimalContext.prec steps - steps| ≤ 1 / 100 := by
  have hprec : 0 < DecimalContext.prec := by decide
  rw [abs_lt] at ha hb
  have hfloor := Int.floor_le (steps * 100)
  have hfloor' := Int.lt_floor_add_one (steps * 100)
  have hleast : 100 * a ≤ ⌊steps * 100⌋ := by
    apply Int.le_floor.mpr
    push_cast
    linarith
  have hmost : ⌊steps * 100⌋ ≤ 100 * b := by
    apply Int.cast_le.mp (hfloor.trans _)
    push_cast
    linarith
  have hdown : ((⌊steps * 100⌋ : ℤ) : ℚ) / 100 ≤ roundDigits DecimalContext.prec steps := by
    apply le_roundDigits hprec (hasDigits_hundredths _)
    · linarith
    · rw [abs_lt]
      omega
  have hup : roundDigits DecimalContext.prec steps ≤ ((⌊steps * 100⌋ + 1 : ℤ) : ℚ) / 100 := by
    apply roundDigits_le hprec (hasDigits_hundredths _)
    · push_cast
      linarith
    · rw [abs_lt]
      omega
  have hwhole : ∀ n : ℤ, |n| < 10 ^ 26 → HasDigits DecimalContext.prec (n : ℚ) := by
    intro n hn
    refine ⟨n, 0, hn.trans (by norm_num [DecimalContext.prec]), ?_⟩
    rw [zpow_zero, mul_one]
  refine ⟨?_, ?_, ?_⟩
  · exact le_roundDigits hprec (hwhole a (abs_lt.mpr ha)) hlow
  · exact roundDigits_le hprec (hwhole b (abs_lt.mpr hb)) hhigh
  · push_cast at hup
    rw [abs_le]
    exact ⟨by linarith, by linarith⟩

/-- The bounds as whole numbers of steps. -/
theorem LotRange.exists_bounds (h : LotRange minLot maxLot step) : ∃ a b : ℤ,
    minLot = a * step ∧ maxLot = b * step ∧ |a| < 10 ^ 26 ∧ |b| < 10 ^ 26 ∧
      ∃ (units : ℕ) (e : ℤ), step = units * 10 ^ e ∧ 0 < units ∧ |a| * units < 10 ^ 26 ∧
        |b| * units < 10 ^ 26 := by
  obtain ⟨a, ha⟩ := h.least
  obtain ⟨b, hb⟩ := h.greatest
  obtain ⟨units, e, hstep, hleast, hgreatest⟩ := h.precision
  have hpow : (0 : ℚ) < 10 ^ e := zpow_pos (by norm_num) e
  have hunits : (0 : ℚ) < units := by
    apply pos_of_mul_pos_left _ hpow.le
    rw [← hstep]
    exact h.positive
  have hbound : ∀ n : ℤ, |(n : ℚ) * step| < 10 ^ 26 * 10 ^ e → |n| * units < 10 ^ 26 := by
    intro n hn
    rw [hstep, ← mul_assoc, abs_mul, abs_of_pos hpow, abs_mul, abs_of_pos hunits] at hn
    have hcast := lt_of_mul_lt_mul_right hn hpow.le
    exact_mod_cast hcast
  have hone : (1 : ℤ) ≤ units := by exact_mod_cast Nat.cast_pos.mp hunits
  have haunits := hbound a (ha ▸ hleast)
  have hbunits := hbound b (hb ▸ hgreatest)
  refine ⟨a, b, ha, hb, ?_, ?_, units, e, hstep, Nat.cast_pos.mp hunits, haunits, hbunits⟩
  · exact (le_mul_of_one_le_right (abs_nonneg a) hone).trans_lt haunits
  · exact (le_mul_of_one_le_right (abs_nonneg b) hone).trans_lt hbunits

/-- The result of a normalisation, as hundredths of the step. -/
def lotHundredths (lot minLot maxLot step : ℚ) : ℤ :=
  hundredths (roundDigits DecimalContext.prec (clampLot lot minLot maxLot / step))

/-- Every normalisation in range succeeds, with a number of hundredths of the step that lies within the
bounds and near the clamped lot. -/
theorem normalizeLot_eq_ok (h : LotRange minLot maxLot step) (lot : ℚ) :
    DecimalContext.normalizeLot lot minLot maxLot step =
        .ok (lotHundredths lot minLot maxLot step / 100 * step) ∧
      minLot ≤ lotHundredths lot minLot maxLot step / 100 * step ∧
      lotHundredths lot minLot maxLot step / 100 * step ≤ maxLot ∧
      |lotHundredths lot minLot maxLot step / 100 * step - clampLot lot minLot maxLot| ≤ step / 2 := by
  obtain ⟨a, b, ha, hb, hasmall, hbsmall, units, e, hunits, hpos, hleast, hmost⟩ := h.exists_bounds
  have hstep := h.positive
  have hlow : a ≤ clampLot lot minLot maxLot / step := by
    rw [le_div_iff₀ hstep, ← ha]
    exact le_clampLot h.order
  have hhigh : clampLot lot minLot maxLot / step ≤ b := by
    rw [div_le_iff₀ hstep, ← hb]
    exact clampLot_le
  obtain ⟨hrlow, hrhigh, hnear⟩ := roundDigits_steps hasmall hbsmall hlow hhigh
  have hmlow : 100 * a ≤ lotHundredths lot minLot maxLot step := le_hundredths hrlow
  have hmhigh : lotHundredths lot minLot maxLot step ≤ 100 * b := hundredths_le hrhigh
  have hround := abs_hundredths_sub_le
    (roundDigits DecimalContext.prec (clampLot lot minLot maxLot / step))
  rw [← lotHundredths] at hround
  have hm : lotHundredths lot minLot maxLot step =
      hundredths (roundDigits DecimalContext.prec (clampLot lot minLot maxLot / step)) := rfl
  generalize lotHundredths lot minLot maxLot step = m at hmlow hmhigh hround hm ⊢
  have hsmall : |(m : ℚ) / 100| * 10 ^ 2 < 10 ^ DecimalContext.prec := by
    have habs : |m| < 10 ^ 28 := by
      rw [abs_lt] at hasmall hbsmall ⊢
      omega
    have hcast : |(m : ℚ)| < 10 ^ 28 := by exact_mod_cast habs
    rw [abs_div, abs_of_pos (by norm_num : (0 : ℚ) < 100), DecimalContext.prec]
    linarith
  -- The product has no more digits than the hundredths times the units of the step.
  have hproduct : HasDigits DecimalContext.prec ((m : ℚ) / 100 * step) := by
    refine ⟨m * units, e - 2, ?_, ?_⟩
    · rw [← abs_of_pos (by exact_mod_cast hpos : (0 : ℤ) < units), ← abs_mul, abs_lt] at hleast hmost
      have hlower := mul_le_mul_of_nonneg_right hmlow (by omega : (0 : ℤ) ≤ units)
      have hupper := mul_le_mul_of_nonneg_right hmhigh (by omega : (0 : ℤ) ≤ units)
      rw [mul_assoc] at hlower hupper
      rw [abs_lt, DecimalContext.prec]
      omega
    · rw [hunits, zpow_sub₀ (by norm_num)]
      push_cast
      ring
  refine ⟨?_, ?_, ?_, ?_⟩
  · have hdiv : DecimalContext.div (clampLot lot minLot maxLot) step =
        .ok (roundDigits DecimalContext.prec (clampLot lot minLot maxLot / step)) :=
      if_neg hstep.ne'
    have hplaces : DecimalContext.decimalRound
        (roundDigits DecimalContext.prec (clampLot lot minLot maxLot / step)) 2 = .ok (m / 100) := by
      rw [DecimalContext.decimalRound, DecimalContext.quantize, decimalRound_two, ← hm]
      exact if_pos hsmall
    simp only [DecimalContext.normalizeLot, clampLot_eq, hdiv, bind_eq_ok]
    exact ⟨_, rfl, _, hplaces, congrArg Except.ok (roundDigits_of_hasDigits hproduct)⟩
  · rw [ha]
    apply mul_le_mul_of_nonneg_right _ hstep.le
    rw [le_div_iff₀ (by norm_num)]
    exact_mod_cast (by linarith : a * 100 ≤ m)
  · rw [hb]
    apply mul_le_mul_of_nonneg_right _ hstep.le
    rw [div_le_iff₀ (by norm_num)]
    exact_mod_cast (by linarith : m ≤ b * 100)
  · have hsteps : clampLot lot minLot maxLot = clampLot lot minLot maxLot / step * step :=
      (div_mul_cancel₀ _ hstep.ne').symm
    have hclose : |(m : ℚ) / 100 - clampLot lot minLot maxLot / step| ≤ 1 / 2 := by
      rw [abs_le] at hround hnear ⊢
      exact ⟨by linarith [hround.1, hnear.1], by linarith [hround.2, hnear.2]⟩
    rw [hsteps, ← sub_mul, abs_mul, abs_of_pos hstep]
    linarith [mul_le_mul_of_nonneg_right hclose hstep.le]

private theorem normalizeLot_whole (h : LotRange minLot maxLot step) {n : ℤ} (hlow : minLot ≤ n * step)
    (hhigh : n * step ≤ maxLot) :
    DecimalContext.normalizeLot (n * step) minLot maxLot step = .ok (n * step) := by
  obtain ⟨a, b, ha, hb, hasmall, hbsmall⟩ := h.exists_bounds
  have hstep := h.positive
  have hsteps : clampLot (n * step) minLot maxLot / step = n := by
    rw [clampLot_of_between hlow hhigh, mul_div_cancel_right₀ _ hstep.ne']
  have hnsmall : |n| < 10 ^ 26 := by
    rw [ha] at hlow
    rw [hb] at hhigh
    have han : a ≤ n := by exact_mod_cast le_of_mul_le_mul_right hlow hstep
    have hnb : n ≤ b := by exact_mod_cast le_of_mul_le_mul_right hhigh hstep
    rw [abs_lt] at hasmall hbsmall ⊢
    omega
  obtain ⟨hdown, hup, -⟩ := roundDigits_steps hnsmall hnsmall le_rfl (le_refl (n : ℚ))
  have hhundredths : lotHundredths (n * step) minLot maxLot step = 100 * n := by
    rw [lotHundredths, hsteps]
    exact le_antisymm (hundredths_le hup) (le_hundredths hdown)
  rw [(normalizeLot_eq_ok h (n * step)).1, hhundredths]
  push_cast
  rw [mul_div_cancel_left₀ _ (by norm_num)]

/-- A normalised lot is tradable exactly when the number of steps in the clamped lot rounds to a whole
number at two places. -/
theorem tradable_iff (h : LotRange minLot maxLot step) (lot : ℚ) :
    (∃ result, DecimalContext.normalizeLot lot minLot maxLot step = .ok result ∧
        Tradable lot minLot maxLot step result) ↔
      NearWholeSteps (clampLot lot minLot maxLot / step) := by
  obtain ⟨hresult, hlow, hhigh, hnear⟩ := normalizeLot_eq_ok h lot
  rw [NearWholeSteps, ← hundredths_whole_iff, ← lotHundredths]
  have hwhole : ∀ n : ℤ, lotHundredths lot minLot maxLot step / 100 * step = (n : ℚ) * step ↔
      lotHundredths lot minLot maxLot step = 100 * n := by
    intro n
    rw [mul_left_inj' h.positive.ne', div_eq_iff (by norm_num), mul_comm (n : ℚ)]
    exact_mod_cast Iff.rfl
  refine ⟨fun hexists => ?_, fun hexists => ?_⟩
  · obtain ⟨result, heq, htradable⟩ := hexists
    obtain rfl := Except.ok.inj (hresult.symm.trans heq)
    obtain ⟨n, hn⟩ := htradable.multiple
    exact ⟨n, (hwhole n).mp hn⟩
  · obtain ⟨n, hn⟩ := hexists
    have heq := (hwhole n).mpr hn
    rw [heq] at hlow hhigh hnear hresult
    exact ⟨n * step, hresult, ⟨n, rfl⟩, hlow, hhigh, hnear, normalizeLot_whole h hlow hhigh⟩

private theorem normalizeLot_exact (h : LotRange minLot maxLot step)
    (hdigits : HasDigits DecimalContext.prec (clampLot lot minLot maxLot / step)) :
    DecimalContext.normalizeLot lot minLot maxLot step = .ok (normalizeLot lot minLot maxLot step) := by
  rw [(normalizeLot_eq_ok h lot).1, lotHundredths, roundDigits_of_hasDigits hdigits, normalizeLot]
  simp only [clampLot_eq]
  rw [decimalRound_two]

end Lots

theorem lotRange_default : LotRange (1 / 100) 100 (1 / 100) := by
  refine ⟨by norm_num, ⟨1, by norm_num⟩, ⟨10000, by norm_num⟩, by norm_num, 1, -2, ?_, ?_, ?_⟩
  · norm_num
  · norm_num
  · norm_num

/-- The lots of `route_signal_to_live` are normalised exactly. -/
theorem normalizeLot_default_exact {lot : ℚ} (h : HasDigits DecimalContext.prec lot) :
    DecimalContext.normalizeLot lot (1 / 100) 100 (1 / 100) =
      .ok (normalizeLot lot (1 / 100) 100 (1 / 100)) := by
  have hscaled : ∀ q, HasDigits DecimalContext.prec q →
      HasDigits DecimalContext.prec (q / (1 / 100)) := by
    intro q hq
    obtain ⟨k, e, hk, rfl⟩ := hq
    refine ⟨k, e + 2, hk, ?_⟩
    rw [zpow_add₀ (by norm_num)]
    norm_num
    ring
  apply normalizeLot_exact lotRange_default (hscaled _ _)
  unfold clampLot
  rcases min_choice 100 (max (1 / 100) lot) with hmin | hmin
  · rw [hmin]
    exact ⟨1, 2, by norm_num [DecimalContext.prec], by norm_num⟩
  · rw [hmin]
    rcases max_choice (1 / 100) lot with hmax | hmax
    · rw [hmax]
      exact ⟨1, -2, by norm_num [DecimalContext.prec], by norm_num⟩
    · rw [hmax]
      exact h

/-- Half a lot is fifty steps. -/
theorem tradable_iff_halfLot :
    ∃ result, DecimalContext.normalizeLot (1 / 2) (1 / 100) 100 (1 / 100) = .ok result ∧
      Tradable (1 / 2) (1 / 100) 100 (1 / 100) result := by
  have hclamp : clampLot (1 / 2) (1 / 100) 100 / (1 / 100) = (5000 : ℤ) / 100 := by
    rw [clampLot_of_between (by norm_num) (by norm_num)]
    norm_num
  refine (tradable_iff lotRange_default (1 / 2)).mpr ⟨50, ?_⟩
  rw [hclamp, roundDigits_of_hasDigits (hasDigits_hundredths (by norm_num))]
  norm_num

/-- A lot of 0.015 is normalised to itself, one and a half steps. -/
theorem half_step_kept :
    DecimalContext.normalizeLot (15 / 1000) (1 / 100) 100 (1 / 100) = .ok (15 / 1000) ∧
      ¬ ∃ result, DecimalContext.normalizeLot (15 / 1000) (1 / 100) 100 (1 / 100) = .ok result ∧
        Tradable (15 / 1000) (1 / 100) 100 (1 / 100) result := by
  have hclamp : clampLot (15 / 1000) (1 / 100) 100 / (1 / 100) = (150 : ℤ) / 100 := by
    rw [clampLot_of_between (by norm_num) (by norm_num)]
    norm_num
  have hround : roundDigits DecimalContext.prec ((150 : ℤ) / 100) = (150 : ℤ) / 100 :=
    roundDigits_of_hasDigits (hasDigits_hundredths (by norm_num))
  have hhundredths : lotHundredths (15 / 1000) (1 / 100) 100 (1 / 100) = 150 := by
    rw [lotHundredths, hclamp, hround]
    with_unfolding_all decide
  have hresult := (normalizeLot_eq_ok lotRange_default (15 / 1000)).1
  rw [hhundredths] at hresult
  have hkept : DecimalContext.normalizeLot (15 / 1000) (1 / 100) 100 (1 / 100) =
      .ok (15 / 1000) := by
    rw [hresult]
    norm_num
  refine ⟨hkept, fun hexists => ?_⟩
  obtain ⟨result, heq, htradable⟩ := hexists
  obtain rfl := Except.ok.inj (hkept.symm.trans heq)
  obtain ⟨n, hn⟩ := htradable.multiple
  have htwice : (3 : ℚ) = ((2 * n : ℤ) : ℚ) := by
    push_cast
    linarith
  have hint : (3 : ℤ) = 2 * n := by exact_mod_cast htwice
  omega

end SphereFx.Api
