import Mathlib.Tactic.FieldSimp
import Mathlib.Tactic.LinearCombination
import SphereFx.Backtester.Divisors

/-!
# The Kelly fraction

`CalculateKellyFraction` of `risk.go`, and the formula in its comment. The code divides by the profit
factor where the formula divides by the average win, so the two agree only where both stake nothing and
on one curve.
-/

namespace SphereFx.Backtester

def calculateKellyFraction (winRate avgWin avgLoss : F64) : F64 :=
  if F64.eq avgLoss 0 then 0
  else
    let profitFactor := winRate * avgWin / ((.fin 1 - winRate) * avgLoss)
    if profitFactor ≤ 0 then 0
    else
      let kelly := (winRate - (.fin 1 - winRate) / profitFactor) / profitFactor
      if kelly < 0 then 0 else kelly

/-- The same with a record of the divisors. -/
def calculateKellyFractionDivided (winRate avgWin avgLoss : F64) : Divided F64 := do
  if F64.eq avgLoss 0 then return 0
  let profitFactor ← divide (winRate * avgWin) ((.fin 1 - winRate) * avgLoss)
  if profitFactor ≤ 0 then return 0
  let quotient ← divide (.fin 1 - winRate) profitFactor
  let kelly ← divide (winRate - quotient) profitFactor
  if kelly < 0 then return 0
  return kelly

theorem value_calculateKellyFractionDivided (winRate avgWin avgLoss : F64) :
    (calculateKellyFractionDivided winRate avgWin avgLoss).value =
      calculateKellyFraction winRate avgWin avgLoss := by
  simp only [calculateKellyFractionDivided, calculateKellyFraction, apply_ite Divided.value,
    Divided.value_bind, Divided.value_pure, divide]

/-! ### What it computes -/

/-- What is won on average over all trades. -/
def gain (p W : ℚ) : ℚ := p * W

/-- What is lost on average over all trades. -/
def loss (p L : ℚ) : ℚ := (1 - p) * L

/-- The fraction the code computes before it is cut off at zero. -/
def uncutKelly (p W L : ℚ) : ℚ := (p - (1 - p) / (gain p W / loss p L)) / (gain p W / loss p L)

/-- The formula of the comment. -/
def documentedKelly (p W L : ℚ) : ℚ := max 0 ((gain p W - loss p L) / W)

section

variable {p W L : ℚ}

theorem loss_fin (p L : ℚ) : (F64.fin 1 - .fin p) * .fin L = .fin (loss p L) := by
  rw [F64.sub_fin, F64.mul_fin, loss]

theorem gain_pos (hp : 0 < p) (hW : 0 < W) : 0 < gain p W := mul_pos hp hW

theorem loss_pos (hp : p < 1) (hL : 0 < L) : 0 < loss p L := mul_pos (sub_pos.mpr hp) hL

theorem loss_one (L : ℚ) : loss 1 L = 0 := by rw [loss, sub_self, zero_mul]

theorem loss_zero (L : ℚ) : loss 0 L = L := by rw [loss, sub_zero, one_mul]

theorem profitFactor_fin (hloss : loss p L ≠ 0) :
    F64.fin p * .fin W / .fin (loss p L) = .fin (gain p W / loss p L) := by
  rw [F64.mul_fin, F64.div_fin hloss, gain]

theorem lossAvg_ne_zero (hL : 0 < L) : ¬ F64.eq (.fin L) 0 = true :=
  fun h => hL.ne' (F64.fin_eq_fin.mp h)

private theorem kelly_never (hL : 0 < L) :
    calculateKellyFraction (.fin 0) (.fin W) (.fin L) = .fin 0 ∧
      (calculateKellyFractionDivided (.fin 0) (.fin W) (.fin L)).divisors = [.fin (loss 0 L)] := by
  have hfactor : F64.fin 0 * .fin W / .fin (loss 0 L) = .fin 0 := by
    rw [profitFactor_fin (loss_pos zero_lt_one hL).ne', gain, zero_mul, zero_div]
  have hle : F64.fin 0 ≤ 0 := F64.fin_le_fin.mpr le_rfl
  constructor
  · simp only [calculateKellyFraction, if_neg (lossAvg_ne_zero hL), loss_fin, hfactor, if_pos hle]
    rfl
  · simp only [calculateKellyFractionDivided, if_neg (lossAvg_ne_zero hL), loss_fin, divide, hfactor,
      bind, if_pos hle]
    rfl

private theorem kelly_always (hW : 0 < W) (hL : 0 < L) :
    calculateKellyFraction (.fin 1) (.fin W) (.fin L) = .fin 0 ∧
      0 ∈ (calculateKellyFractionDivided (.fin 1) (.fin W) (.fin L)).divisors := by
  have hfactor : F64.fin 1 * .fin W / .fin (loss 1 L) = .inf false := by
    rw [loss_one, F64.mul_fin, one_mul, F64.div_fin_zero, F64.scaleInf, if_neg hW.ne',
      decide_eq_false hW.not_gt]
    rfl
  have hle : ¬ F64.inf false ≤ 0 := by decide
  constructor
  · simp only [calculateKellyFraction, if_neg (lossAvg_ne_zero hL), loss_fin, hfactor, if_neg hle]
    decide
  · simp only [calculateKellyFractionDivided, if_neg (lossAvg_ne_zero hL), loss_fin, loss_one, divide,
      Divided.divisors_bind]
    exact List.mem_cons_self

/-- Between the two the fraction is cut off at zero, and each divisor is one of two. -/
private theorem kelly_between (hp : 0 < p) (hp' : p < 1) (hW : 0 < W) (hL : 0 < L) :
    calculateKellyFraction (.fin p) (.fin W) (.fin L) = .fin (max 0 (uncutKelly p W L)) ∧
      ∀ d ∈ (calculateKellyFractionDivided (.fin p) (.fin W) (.fin L)).divisors,
        d = .fin (loss p L) ∨ d = .fin (gain p W / loss p L) := by
  have hloss := loss_pos hp' hL
  have hpos : 0 < gain p W / loss p L := div_pos (gain_pos hp hW) hloss
  have hfactor := profitFactor_fin (p := p) (W := W) hloss.ne'
  have hle : ¬ F64.fin (gain p W / loss p L) ≤ 0 := fun h => (F64.fin_le_fin.mp h).not_gt hpos
  have hkelly : (F64.fin p - (.fin 1 - .fin p) / .fin (gain p W / loss p L)) /
      .fin (gain p W / loss p L) = .fin (uncutKelly p W L) := by
    rw [F64.sub_fin, F64.div_fin hpos.ne', F64.sub_fin, F64.div_fin hpos.ne', uncutKelly]
  constructor
  · simp only [calculateKellyFraction, if_neg (lossAvg_ne_zero hL), loss_fin, hfactor, if_neg hle,
      hkelly]
    by_cases hcut : uncutKelly p W L < 0
    · have hlt : F64.fin (uncutKelly p W L) < 0 := F64.fin_lt_fin.mpr hcut
      rw [if_pos hlt, max_eq_left hcut.le]
      rfl
    · have hlt : ¬ F64.fin (uncutKelly p W L) < 0 := fun h => hcut (F64.fin_lt_fin.mp h)
      rw [if_neg hlt, max_eq_right (not_lt.mp hcut)]
  · simp only [calculateKellyFractionDivided, if_neg (lossAvg_ne_zero hL), loss_fin, divide, hfactor,
      Divided.divisors_bind, if_neg hle]
    intro d hd
    by_cases hcut : (F64.fin p - (.fin 1 - .fin p) / .fin (gain p W / loss p L)) /
        .fin (gain p W / loss p L) < 0
    · simp only [if_pos hcut, Divided.divisors_pure, List.mem_append, List.mem_singleton] at hd
      tauto
    · simp only [if_neg hcut, Divided.divisors_pure, List.mem_append, List.mem_singleton] at hd
      tauto

end

/-! ### Where it is the formula -/

/-- The fraction is the one of the comment, found without a division by zero, and so no more than the
win rate and nothing without a positive expectancy. -/
structure FollowsFormula (p W L : ℚ) : Prop where
  value : calculateKellyFraction (.fin p) (.fin W) (.fin L) = .fin (documentedKelly p W L)
  divisors : ∀ d ∈ (calculateKellyFractionDivided (.fin p) (.fin W) (.fin L)).divisors, d ≠ 0
  inRange : 0 ≤ calculateKellyFraction (.fin p) (.fin W) (.fin L) ∧
    calculateKellyFraction (.fin p) (.fin W) (.fin L) ≤ .fin p
  positive : 0 < calculateKellyFraction (.fin p) (.fin W) (.fin L) → 0 < gain p W - loss p L

/-- Either stakes nothing, or the averages lie on the curve on which the two agree. -/
def Agrees (p W L : ℚ) : Prop :=
  gain p W ≤ loss p L ∧ p * gain p W ≤ (1 - p) * loss p L ∨
    p * (gain p W - loss p L) ^ 2 = (2 * p - 1) * loss p L ^ 2

section

variable {p W L : ℚ}

private theorem documentedKelly_range (hp : 0 ≤ p) (hp' : p ≤ 1) (hW : 0 < W) (hL : 0 < L) :
    0 ≤ documentedKelly p W L ∧ documentedKelly p W L ≤ p := by
  refine ⟨le_max_left _ _, max_le hp ?_⟩
  have hloss : 0 ≤ loss p L := mul_nonneg (sub_nonneg.mpr hp') hL.le
  rw [div_le_iff₀ hW]
  change gain p W - loss p L ≤ gain p W
  linarith

private theorem pos_of_documentedKelly_pos (hW : 0 < W) (h : 0 < documentedKelly p W L) :
    0 < gain p W - loss p L := by
  rcases lt_max_iff.mp h with hzero | hpos
  · exact absurd hzero (lt_irrefl 0)
  · rwa [div_pos_iff_of_pos_right hW] at hpos

theorem followsFormula_iff_value (hp : 0 ≤ p) (hp' : p ≤ 1) (hW : 0 < W) (hL : 0 < L)
    (hdivisors : ∀ d ∈ (calculateKellyFractionDivided (.fin p) (.fin W) (.fin L)).divisors, d ≠ 0) :
    FollowsFormula p W L ↔
      calculateKellyFraction (.fin p) (.fin W) (.fin L) = .fin (documentedKelly p W L) := by
  refine ⟨fun h => h.value, fun h => ⟨h, hdivisors, ?_, fun hpos => ?_⟩⟩
  · obtain ⟨hzero, hrate⟩ := documentedKelly_range hp hp' hW hL
    rw [h]
    exact ⟨F64.fin_le_fin.mpr hzero, F64.fin_le_fin.mpr hrate⟩
  · rw [h] at hpos
    exact pos_of_documentedKelly_pos hW (F64.fin_lt_fin.mp hpos)

private theorem max_zero_eq_iff {x y : ℚ} : max 0 x = max 0 y ↔ x ≤ 0 ∧ y ≤ 0 ∨ x = y := by
  rcases le_total x 0 with hx | hx <;> rcases le_total y 0 with hy | hy
  · simp [hx, hy]
  · rw [max_eq_left hx, max_eq_right hy]
    grind
  · rw [max_eq_right hx, max_eq_left hy]
    grind
  · rw [max_eq_right hx, max_eq_right hy]
    grind

theorem uncutKelly_eq (hp : 0 < p) (hp' : p < 1) (hW : 0 < W) (hL : 0 < L) :
    uncutKelly p W L = (p * gain p W - (1 - p) * loss p L) * loss p L / gain p W ^ 2 := by
  have hloss := (loss_pos hp' hL).ne'
  have hgain := (gain_pos hp hW).ne'
  unfold uncutKelly
  field_simp

private theorem uncutKelly_nonpos_iff (hp : 0 < p) (hp' : p < 1) (hW : 0 < W) (hL : 0 < L) :
    uncutKelly p W L ≤ 0 ↔ p * gain p W ≤ (1 - p) * loss p L := by
  have hloss := loss_pos hp' hL
  have hgain := gain_pos hp hW
  rw [uncutKelly_eq hp hp' hW hL, div_le_iff₀ (pow_pos hgain 2), zero_mul, mul_nonpos_iff]
  grind

theorem documented_nonpos_iff (hW : 0 < W) :
    (gain p W - loss p L) / W ≤ 0 ↔ gain p W ≤ loss p L := by
  rw [div_le_iff₀ hW, zero_mul, sub_nonpos]

private theorem uncut_eq_documented_iff (hp : 0 < p) (hp' : p < 1) (hW : 0 < W) (hL : 0 < L) :
    uncutKelly p W L = (gain p W - loss p L) / W ↔
      p * (gain p W - loss p L) ^ 2 = (2 * p - 1) * loss p L ^ 2 := by
  have hgain := (gain_pos hp hW).ne'
  have hwin : (gain p W - loss p L) / W = (gain p W - loss p L) * p / gain p W := by
    rw [gain]
    field_simp
  have hcancel : (p * gain p W - (1 - p) * loss p L) * loss p L * gain p W =
      (gain p W - loss p L) * p * gain p W ^ 2 ↔
      (p * gain p W - (1 - p) * loss p L) * loss p L = (gain p W - loss p L) * p * gain p W := by
    rw [pow_two, ← mul_assoc]
    exact mul_left_inj' hgain
  rw [uncutKelly_eq hp hp' hW hL, hwin, div_eq_div_iff (pow_ne_zero 2 hgain) hgain, hcancel]
  constructor
  · intro h
    linear_combination -h
  · intro h
    linear_combination -h

private theorem followsFormula_never (hW : 0 < W) (hL : 0 < L) : FollowsFormula 0 W L ∧ Agrees 0 W L := by
  have hgain : gain 0 W = 0 := zero_mul W
  obtain ⟨hvalue, hdivisors⟩ := kelly_never (W := W) hL
  constructor
  · have hsafe : ∀ d ∈ (calculateKellyFractionDivided (.fin 0) (.fin W) (.fin L)).divisors, d ≠ 0 := by
      rw [hdivisors, List.forall_mem_singleton, loss_zero]
      exact fun h => hL.ne' (F64.fin.inj h)
    have hnothing : documentedKelly 0 W L = 0 := by
      apply max_eq_left
      rw [documented_nonpos_iff hW, hgain, loss_zero]
      exact hL.le
    rw [followsFormula_iff_value le_rfl zero_le_one hW hL hsafe, hvalue, hnothing]
  · refine Or.inl ⟨?_, ?_⟩
    · rw [hgain, loss_zero]
      exact hL.le
    · rw [hgain, loss_zero, zero_mul, sub_zero, one_mul]
      exact hL.le

private theorem not_followsFormula_always (hW : 0 < W) (hL : 0 < L) :
    ¬ FollowsFormula 1 W L ∧ ¬ Agrees 1 W L := by
  have hgain : gain 1 W = W := one_mul W
  constructor
  · exact fun h => h.divisors 0 (kelly_always hW hL).2 rfl
  · rw [Agrees, loss_one, hgain, not_or]
    refine ⟨fun h => h.1.not_gt hW, fun hcurve => ?_⟩
    have hsquare := pow_pos hW 2
    linarith

private theorem followsFormula_between_iff (hp : 0 < p) (hp' : p < 1) (hW : 0 < W) (hL : 0 < L) :
    FollowsFormula p W L ↔ Agrees p W L := by
  obtain ⟨hvalue, hdivisors⟩ := kelly_between hp hp' hW hL
  have hloss := loss_pos hp' hL
  have hfactor : 0 < gain p W / loss p L := div_pos (gain_pos hp hW) hloss
  have hsafe : ∀ d ∈ (calculateKellyFractionDivided (.fin p) (.fin W) (.fin L)).divisors, d ≠ 0 := by
    intro d hd hzero
    rcases hdivisors d hd with h | h
    · exact hloss.ne' (F64.fin.inj (h.symm.trans hzero))
    · exact hfactor.ne' (F64.fin.inj (h.symm.trans hzero))
  rw [followsFormula_iff_value hp.le hp'.le hW hL hsafe, hvalue, F64.fin.injEq, documentedKelly,
    max_zero_eq_iff, uncutKelly_nonpos_iff hp hp' hW hL, documented_nonpos_iff hW,
    uncut_eq_documented_iff hp hp' hW hL, and_comm, Agrees]

/-- The code follows its formula where both stake nothing and on one curve, and nowhere else. -/
theorem followsFormula_iff (hp : 0 ≤ p) (hp' : p ≤ 1) (hW : 0 < W) (hL : 0 < L) :
    FollowsFormula p W L ↔ Agrees p W L := by
  rcases hp.eq_or_lt with rfl | hpos
  · obtain ⟨hfollows, hagrees⟩ := followsFormula_never hW hL
    exact iff_of_true hfollows hagrees
  · rcases hp'.eq_or_lt with rfl | hlt
    · obtain ⟨hfollows, hagrees⟩ := not_followsFormula_always hW hL
      exact iff_of_false hfollows hagrees
    · exact followsFormula_between_iff hpos hlt hW hL

/-- If no more than half of the trades win, the two agree where there is no positive expectancy. -/
theorem agrees_iff_of_le_half (hp : 0 < p) (hp' : p ≤ 1 / 2) (hL : 0 < L) :
    Agrees p W L ↔ gain p W ≤ loss p L := by
  have hloss := loss_pos (hp'.trans_lt (by norm_num)) hL
  constructor
  · rintro (⟨hle, -⟩ | hcurve)
    · exact hle
    · have hnonpos : (2 * p - 1) * loss p L ^ 2 ≤ 0 :=
        mul_nonpos_of_nonpos_of_nonneg (by linarith) (sq_nonneg _)
      rw [← hcurve] at hnonpos
      have hzero : (gain p W - loss p L) ^ 2 = 0 :=
        le_antisymm (nonpos_of_mul_nonpos_right hnonpos hp) (sq_nonneg _)
      exact (sub_eq_zero.mp (pow_eq_zero_iff two_ne_zero |>.mp hzero)).le
  · intro hle
    refine Or.inl ⟨hle, ?_⟩
    calc p * gain p W ≤ p * loss p L := mul_le_mul_of_nonneg_left hle hp.le
      _ ≤ (1 - p) * loss p L := mul_le_mul_of_nonneg_right (by linarith) hloss.le

end

/-- Four wins of nine in seven and losses of eight lie on the curve, and something is staked. -/
theorem followsFormula_iff_onCurve :
    FollowsFormula (4 / 7) 9 8 ∧ documentedKelly (4 / 7) 9 8 = 4 / 21 :=
  ⟨(followsFormula_iff (by norm_num) (by norm_num) (by norm_num) (by norm_num)).mpr
    (Or.inr (by norm_num [gain, loss])), by norm_num [documentedKelly, gain, loss]⟩

/-- Nine wins of one and a loss of forty-five: the code stakes the capital twice over. -/
theorem kelly_stakes_on_loss :
    calculateKellyFraction (.fin (9 / 10)) (.fin 1) (.fin 45) = .fin 2 ∧
      documentedKelly (9 / 10) 1 45 = 0 ∧ ¬ FollowsFormula (9 / 10) 1 45 := by
  have hvalue : calculateKellyFraction (.fin (9 / 10)) (.fin 1) (.fin 45) = .fin 2 := by
    decide +kernel
  have hformula : documentedKelly (9 / 10) 1 45 = 0 := by norm_num [documentedKelly, gain, loss]
  refine ⟨hvalue, hformula, fun h => ?_⟩
  have hsame := h.value
  rw [hvalue, hformula] at hsame
  exact two_ne_zero (F64.fin.inj hsame)

end SphereFx.Backtester
