import SphereFx.Base.Drawdown
import SphereFx.Backtester.Simulator

/-!
# The drawdown of an equity curve

`metrics.go` repeats the metric functions of `simulator.go` for other callers. Both drawdown loops keep
a running peak, and on finite values both return the greatest fall of the curve.
-/

namespace SphereFx.Backtester

/-- `CalculateMaxDrawdown`. -/
def Metrics.calculateMaxDrawdown (equityCurve : List F64) : F64 :=
  if equityCurve.length < 2 then 0 else drawdownFrom 0 (equityCurve.headD 0) equityCurve

private theorem drawdownFrom_fin (maxDD peak : ℚ) (values : List ℚ) :
    drawdownFrom (.fin maxDD) (.fin peak) (values.map .fin) = .fin (fallFrom maxDD peak values) := by
  have hmax : ∀ a b : ℚ, (if F64.fin a < .fin b then F64.fin b else .fin a) = .fin (max a b) := by
    intro a b
    rw [max_def_lt, apply_ite F64.fin]
    simp only [F64.fin_lt_fin]
  induction values generalizing maxDD peak with
  | nil => rfl
  | cons v rest ih =>
      rw [List.map_cons, drawdownFrom, fallFrom]
      simp only [hmax, F64.sub_fin]
      exact ih _ _

theorem calculateMaxDrawdown_fin (values : List ℚ) :
    calculateMaxDrawdown (values.map .fin) = .fin (greatestFall values) := by
  unfold calculateMaxDrawdown
  match values with
  | [] => rfl
  | [v] => rfl
  | v :: w :: rest =>
      have hlength : ¬ ((v :: w :: rest).map F64.fin).length < 2 := by
        rw [List.length_map, List.length_cons, List.length_cons]
        omega
      rw [if_neg hlength]
      show drawdownFrom (.fin 0) (.fin v) ((v :: w :: rest).map .fin) = _
      -- The first round compares the first value with itself.
      rw [drawdownFrom_fin, fallFrom, max_self, sub_self, max_self]
      rfl

private theorem metricsMaxDrawdown_eq : Metrics.calculateMaxDrawdown = calculateMaxDrawdown := rfl

/-- What a drawdown function of finite values satisfies. -/
structure DrawdownLaws (maxDrawdown : List F64 → F64) (values : List ℚ) (q : ℚ) : Prop where
  value : maxDrawdown (values.map .fin) = .fin q
  greatest : values ≠ [] → IsGreatest (Falls values) q
  short : values.length < 2 → q = 0
  nonneg : 0 ≤ q
  shifted : ∀ c, maxDrawdown ((values.map (· + c)).map .fin) = .fin q
  scaled : ∀ a, 0 ≤ a → maxDrawdown ((values.map (a * ·)).map .fin) = .fin (a * q)
  appended : ∀ more, ∃ q', maxDrawdown ((values ++ more).map .fin) = .fin q' ∧ q ≤ q'

theorem drawdownLaws_calculateMaxDrawdown (values : List ℚ) :
    DrawdownLaws calculateMaxDrawdown values (greatestFall values) where
  value := calculateMaxDrawdown_fin values
  greatest := isGreatest_greatestFall
  short h := by
    match values with
    | [] => rfl
    | [v] => rfl
    | v :: w :: rest => exact absurd h (by simp)
  nonneg := greatestFall_nonneg values
  shifted c := by rw [calculateMaxDrawdown_fin, greatestFall_add_const]
  scaled a ha := by rw [calculateMaxDrawdown_fin, greatestFall_mul values ha]
  appended more := ⟨_, calculateMaxDrawdown_fin _, greatestFall_le_append values more⟩

/-- The one-pass loops return the greatest fall over all pairs of places. -/
theorem drawdown_eq_definition (values : List ℚ) : ∃ q,
    DrawdownLaws calculateMaxDrawdown values q ∧ DrawdownLaws Metrics.calculateMaxDrawdown values q :=
  ⟨_, drawdownLaws_calculateMaxDrawdown values,
    metricsMaxDrawdown_eq ▸ drawdownLaws_calculateMaxDrawdown values⟩

end SphereFx.Backtester
