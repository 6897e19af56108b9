import Mathlib.Data.Nat.Log
import SphereFx.Base.Dispersion
import SphereFx.Backtester.Balance
import SphereFx.Backtester.Metrics

/-!
# Ratios of gain and risk

The Sharpe ratio of `simulator.go`, which `metrics.go` repeats, and the ratios of `risk.go`. A run's
Sharpe ratio is taken over the differences of its equity curve, whose first point already holds the
first trade.
-/

namespace SphereFx.Backtester

/-- `CalculateSharpeRatio`. -/
def Metrics.calculateSharpeRatio (equityCurve : List F64) : F64 :=
  if equityCurve.length < 2 then 0
  else
    let returns := returnsOf equityCurve
    let mean := sumFloats returns / .fin returns.length
    let variance := sumFloats (returns.map fun r => (r - mean) * (r - mean)) / .fin returns.length
    let stdDev := variance.sqrt
    if F64.eq stdDev 0 then 0 else mean / stdDev

theorem metricsSharpeRatio_eq : Metrics.calculateSharpeRatio = calculateSharpeRatio := rfl

/-- The downside sum of `CalculateSortinoRatio` and its count. -/
def downside (returns : List F64) (targetReturn : F64) : F64 × Nat :=
  returns.foldl (fun sums r =>
    if r < targetReturn then (sums.1 + (r - targetReturn) * (r - targetReturn), sums.2 + 1)
    else sums) (0, 0)

/-- `CalculateSortinoRatio`. -/
def calculateSortinoRatio (returns : List F64) (targetReturn : F64) : F64 :=
  if returns.length < 2 then 0
  else
    let mean := sumFloats returns / .fin returns.length
    let (downsideVariance, count) := downside returns targetReturn
    if count = 0 then 0
    else
      let downsideStdDev := (downsideVariance / .fin count).sqrt
      if F64.eq downsideStdDev 0 then 0 else (mean - targetReturn) / downsideStdDev

/-- `CalculateCalmarRatio`. -/
def calculateCalmarRatio (totalRR maxDrawdown : F64) : F64 :=
  if F64.eq maxDrawdown 0 then .inf false else totalRR / maxDrawdown

/-! ### A mean over a root -/

private theorem sqrtDown_pos {q : ℚ} (hq : 0 < q) : 0 < F64.sqrtDown q := by
  have hnum : 0 < q.num.toNat := by
    have := Rat.num_pos.mpr hq
    omega
  have hden : q.den ≤ 4 ^ (64 + q.den.log2) := by
    have hlog : q.den < 2 ^ (q.den.log2 + 1) := Nat.lt_log2_self
    have hmono : 2 ^ (q.den.log2 + 1) ≤ 4 ^ (64 + q.den.log2) := by
      calc 2 ^ (q.den.log2 + 1) ≤ 4 ^ (q.den.log2 + 1) := Nat.pow_le_pow_left (by omega) _
        _ ≤ 4 ^ (64 + q.den.log2) := Nat.pow_le_pow_right (by omega) (by omega)
    omega
  have hone : 1 ≤ q.num.toNat * 4 ^ (64 + q.den.log2) / q.den := by
    rw [Nat.le_div_iff_mul_le q.den_pos, one_mul]
    exact hden.trans (Nat.le_mul_of_pos_left _ hnum)
  have hroot : 0 < Nat.sqrt (q.num.toNat * 4 ^ (64 + q.den.log2) / q.den) := Nat.sqrt_pos.mpr hone
  unfold F64.sqrtDown
  exact div_pos (Nat.cast_pos.mpr hroot) (by positivity)

/-- Over the root of a number that is not negative a finite quotient keeps the sign of its numerator,
and is zero only with it or with the root. -/
theorem over_sqrt_fin (numerator : ℚ) {spread : ℚ} (h : 0 ≤ spread) : ∃ ratio,
    (if F64.eq (F64.sqrt (.fin spread)) 0 then 0
      else .fin numerator / F64.sqrt (.fin spread)) = F64.fin ratio ∧
      (0 < ratio ↔ 0 < numerator ∧ spread ≠ 0) ∧ (ratio < 0 ↔ numerator < 0 ∧ spread ≠ 0) := by
  have hroot : F64.sqrt (.fin spread) = .fin (F64.sqrtDown spread) := if_neg (not_lt.mpr h)
  rw [hroot, F64.zero_def]
  simp only [F64.fin_eq_fin]
  rcases h.eq_or_lt with rfl | hpos
  · have hzero : F64.sqrtDown 0 = 0 := by decide +kernel
    exact ⟨0, if_pos hzero, by simp, by simp⟩
  · have hsqrt := sqrtDown_pos hpos
    refine ⟨numerator / F64.sqrtDown spread, ?_, ?_, ?_⟩
    · rw [if_neg hsqrt.ne', F64.div_fin hsqrt.ne']
    · rw [div_pos_iff_of_pos_right hsqrt]
      exact (and_iff_left hpos.ne').symm
    · rw [div_lt_iff₀ hsqrt, zero_mul]
      exact (and_iff_left hpos.ne').symm

/-! ### Sharpe -/

private theorem squares_fin (center : ℚ) (values : List ℚ) :
    sumFloats ((values.map F64.fin).map fun r => (r - .fin center) * (r - .fin center)) =
      .fin (squaresAbout center values) := by
  rw [List.map_map, squaresAbout, ← sumFloats_fin, List.map_map]
  apply congrArg
  apply List.map_congr_left
  intro v _
  simp only [Function.comp_apply, F64.sub_fin, F64.mul_fin]

private theorem returnsOf_scanl (c : ℚ) (returns : List ℚ) :
    returnsOf ((returns.scanl (· + ·) c).map .fin) = returns.map .fin := by
  induction returns generalizing c with
  | nil => rfl
  | cons r rest ih =>
      have hrest := ih (c + r)
      obtain ⟨tail, htail⟩ : ∃ tail, rest.scanl (· + ·) (c + r) = (c + r) :: tail := by
        cases rest with
        | nil => exact ⟨[], rfl⟩
        | cons r' rest => exact ⟨_, List.scanl_cons⟩
      rw [List.scanl_cons, htail]
      rw [htail] at hrest
      show (F64.fin (c + r) - .fin c) :: returnsOf (((c + r) :: tail).map .fin) = _
      rw [hrest, F64.sub_fin, add_sub_cancel_left]
      rfl

/-- The ratio of a curve with these returns has the sign of their sum, unless they are all equal. -/
private theorem sharpe_of_returns (c : ℚ) (returns : List ℚ) : ∃ ratio,
    calculateSharpeRatio ((returns.scanl (· + ·) c).map .fin) = .fin ratio ∧
      (0 < ratio ↔ 0 < returns.sum ∧ ∃ r ∈ returns, ∃ r' ∈ returns, r ≠ r') ∧
      (ratio < 0 ↔ returns.sum < 0 ∧ ∃ r ∈ returns, ∃ r' ∈ returns, r ≠ r') := by
  cases hreturns : returns with
  | nil => exact ⟨0, rfl, by simp, by simp⟩
  | cons first rest =>
      rw [← hreturns]
      have hne : returns ≠ [] := hreturns ▸ List.cons_ne_nil _ _
      have hlength : (0 : ℚ) < returns.length := Nat.cast_pos.mpr (List.length_pos_iff.mpr hne)
      have hlong : ¬ ((returns.scanl (· + ·) c).map F64.fin).length < 2 := by
        have := List.length_pos_iff.mpr hne
        rw [List.length_map, List.length_scanl]
        omega
      have hspread : 0 ≤ squaresAbout (returns.sum / returns.length) returns / returns.length :=
        div_nonneg (squaresAbout_nonneg _ _) hlength.le
      obtain ⟨ratio, hratio, hpos, hneg⟩ := over_sqrt_fin (returns.sum / returns.length) hspread
      have hdiffer : squaresAbout (returns.sum / returns.length) returns / returns.length ≠ 0 ↔
          ∃ r ∈ returns, ∃ r' ∈ returns, r ≠ r' := by
        rw [Ne, div_eq_zero_iff, or_iff_left hlength.ne', squaresAbout_mean_eq_zero_iff hne]
        push Not
        rfl
      rw [hdiffer, div_pos_iff_of_pos_right hlength] at hpos
      rw [hdiffer, div_lt_iff₀ hlength, zero_mul] at hneg
      refine ⟨ratio, ?_, hpos, hneg⟩
      rw [← hratio, calculateSharpeRatio, if_neg hlong, returnsOf_scanl]
      simp only [List.length_map, sumFloats_fin, F64.div_fin hlength.ne', squares_fin]

/-! ### Sortino -/

private theorem downside_fin (returns : List ℚ) (target : ℚ) :
    downside (returns.map .fin) (.fin target) =
      (.fin (squaresAbout target (returns.filter (· < target))),
        (returns.filter (· < target)).length) := by
  have hfold : ∀ (returns : List ℚ) (total : ℚ) (count : Nat),
      (returns.map F64.fin).foldl (fun sums r =>
        if r < .fin target then (sums.1 + (r - .fin target) * (r - .fin target), sums.2 + 1)
        else sums) (.fin total, count) =
        (.fin (total + squaresAbout target (returns.filter (· < target))),
          count + (returns.filter (· < target)).length) := by
    intro returns
    induction returns with
    | nil =>
        intro total count
        simp [squaresAbout]
    | cons r rest ih =>
        intro total count
        rw [List.map_cons, List.foldl_cons]
        by_cases hlt : r < target
        · rw [if_pos (F64.fin_lt_fin.mpr hlt), F64.sub_fin, F64.mul_fin, F64.add_fin, ih,
            List.filter_cons_of_pos (by simpa using hlt)]
          simp only [squaresAbout, List.map_cons, List.sum_cons, List.length_cons, add_assoc,
            Nat.add_comm 1]
        · rw [if_neg (mt F64.fin_lt_fin.mp hlt), ih, List.filter_cons_of_neg (by simpa using hlt)]
  have := hfold returns 0 0
  rwa [zero_add, Nat.zero_add] at this

theorem calculateSortinoRatio_fin {returns : List ℚ} (hlen : 2 ≤ returns.length) (target : ℚ) :
    calculateSortinoRatio (returns.map .fin) (.fin target) =
      if (returns.filter (· < target)).length = 0 then 0
      else
        let spread := F64.fin (squaresAbout target (returns.filter (· < target))) /
          .fin (returns.filter (· < target)).length
        if F64.eq spread.sqrt 0 then 0
        else .fin (returns.sum / returns.length - target) / spread.sqrt := by
  have hlength : (returns.length : ℚ) ≠ 0 := Nat.cast_ne_zero.mpr (by omega)
  rw [calculateSortinoRatio, if_neg (by rw [List.length_map]; omega), downside_fin]
  simp only [List.length_map, sumFloats_fin, F64.div_fin hlength, F64.sub_fin]

private theorem squaresAbout_perm {center : ℚ} {values other : List ℚ} (h : other.Perm values) :
    squaresAbout center other = squaresAbout center values :=
  (h.map _).sum_eq

/-- On at least two finite returns the ratio is finite and does not depend on their order. It is
negative exactly when the mean misses the target, and positive exactly when the mean beats the target
although some return misses it. -/
theorem sortino_sign (returns : List ℚ) (hlen : 2 ≤ returns.length) (target : ℚ) : ∃ ratio,
    (∀ other : List ℚ, other.Perm returns →
      calculateSortinoRatio (other.map .fin) (.fin target) = .fin ratio) ∧
      (ratio < 0 ↔ returns.sum / returns.length < target) ∧
      (0 < ratio ↔ target < returns.sum / returns.length ∧ ∃ r ∈ returns, r < target) := by
  have hne : returns ≠ [] := List.ne_nil_of_length_pos (by omega)
  have hother : ∀ other : List ℚ, other.Perm returns →
      calculateSortinoRatio (other.map .fin) (.fin target) =
        calculateSortinoRatio (returns.map .fin) (.fin target) := by
    intro other hperm
    have hbelow := hperm.filter (· < target)
    rw [calculateSortinoRatio_fin hlen, calculateSortinoRatio_fin (hperm.length_eq ▸ hlen),
      hperm.length_eq, hperm.sum_eq, squaresAbout_perm hbelow, hbelow.length_eq]
  by_cases hnone : returns.filter (· < target) = []
  · have habove : ∀ r ∈ returns, ¬ r < target := by
      intro r hr
      simpa using List.filter_eq_nil_iff.mp hnone r hr
    refine ⟨0, fun other hperm => ?_, ?_, ?_⟩
    · rw [hother other hperm, calculateSortinoRatio_fin hlen, hnone]
      rfl
    · refine iff_of_false (lt_irrefl _) fun hmean => ?_
      obtain ⟨r, hr, hlt⟩ := exists_lt_of_mean_lt hne hmean
      exact habove r hr hlt
    · exact iff_of_false (lt_irrefl _) fun ⟨_, r, hr, hlt⟩ => habove r hr hlt
  · have hcount : (returns.filter (· < target)).length ≠ 0 := fun hzero =>
      hnone (List.length_eq_zero_iff.mp hzero)
    have hcast : (0 : ℚ) < (returns.filter (· < target)).length :=
      Nat.cast_pos.mpr (Nat.pos_of_ne_zero hcount)
    have hspread : 0 < squaresAbout target (returns.filter (· < target)) /
        (returns.filter (· < target)).length := by
      apply div_pos (squaresAbout_pos hnone _) hcast
      intro r hr
      simpa using (List.mem_filter.mp hr).2
    obtain ⟨ratio, hratio, hpos, hneg⟩ :=
      over_sqrt_fin (returns.sum / returns.length - target) hspread.le
    have hexists : ∃ r ∈ returns, r < target := by
      obtain ⟨r, hr⟩ := List.exists_mem_of_ne_nil _ hnone
      exact ⟨r, (List.mem_filter.mp hr).1, by simpa using (List.mem_filter.mp hr).2⟩
    refine ⟨ratio, fun other hperm => ?_, ?_, ?_⟩
    · rw [hother other hperm, calculateSortinoRatio_fin hlen, if_neg hcount, ← hratio,
        F64.div_fin hcast.ne']
    · rw [hneg, and_iff_left hspread.ne', sub_neg]
    · rw [hpos, and_iff_left hspread.ne', sub_pos, and_iff_left hexists]

theorem sortino_of_two : ∃ ratio,
    calculateSortinoRatio ([1, -1].map F64.fin) (.fin (1 / 2)) = .fin ratio ∧ ratio < 0 := by
  obtain ⟨ratio, hvalue, hneg, -⟩ := sortino_sign [1, -1] (by decide) (1 / 2)
  exact ⟨ratio, hvalue [1, -1] (List.Perm.refl _), hneg.mpr (by norm_num)⟩

/-! ### The ratios of a run -/

/-- A curve of running sums falls nowhere exactly when no summand is negative. -/
private theorem falls_scanl_nonpos (c : ℚ) (returns : List ℚ) :
    (∀ d ∈ Falls (returns.scanl (· + ·) c), d ≤ 0) ↔ ∀ r ∈ returns, 0 ≤ r := by
  have habove : ∀ (returns : List ℚ) (c : ℚ), (∀ r ∈ returns, 0 ≤ r) →
      ∀ x ∈ returns.scanl (· + ·) c, c ≤ x := by
    intro returns
    induction returns with
    | nil =>
        intro c _ x hx
        rw [List.scanl_nil, List.mem_singleton] at hx
        exact hx.ge
    | cons r rest ih =>
        intro c h x hx
        rw [List.forall_mem_cons] at h
        rw [List.scanl_cons, List.mem_cons] at hx
        rcases hx with rfl | hx
        · exact le_rfl
        · exact (le_add_of_nonneg_right h.1).trans (ih (c + r) h.2 x hx)
  induction returns generalizing c with
  | nil => simp [Falls]
  | cons r rest ih =>
      rw [List.scanl_cons, List.forall_mem_cons]
      have htail := ih (c + r)
      constructor
      · intro h
        have hnext : c + r ∈ c :: rest.scanl (· + ·) (c + r) := by
          cases rest <;> simp [List.scanl_cons, List.scanl_nil]
        have hstep := h (c - (c + r)) (mem_falls_cons.mpr (.inl ⟨_, hnext, rfl⟩))
        exact ⟨by linarith, htail.mp fun d hd => h d (mem_falls_cons.mpr (.inr hd))⟩
      · rintro ⟨hr, hrest⟩ d hd
        rcases mem_falls_cons.mp hd with ⟨x, hx, rfl⟩ | hd
        · rcases List.mem_cons.mp hx with rfl | hx
          · exact (sub_self _).le
          · have := habove rest (c + r) hrest x hx
            linarith
        · exact htail.mpr hrest d hd

section Run

variable {env : RunEnv} {s : Simulator} {signals : List Signal}

/-- Two trades whose achievements differ. -/
def Uneven (trades : List Trade) : Prop :=
  ∃ t ∈ trades, ∃ t' ∈ trades, t.rrAchieved ≠ t'.rrAchieved

theorem uneven_iff {trades : List Trade} {returns : List ℚ}
    (h : trades.map Trade.rrAchieved = returns.map .fin) :
    Uneven trades ↔ ∃ r ∈ returns, ∃ r' ∈ returns, r ≠ r' := by
  constructor
  · rintro ⟨t, ht, t', ht', hdiffer⟩
    obtain ⟨r, hr, hrt⟩ := List.mem_map.mp (h ▸ List.mem_map_of_mem ht)
    obtain ⟨r', hr', hrt'⟩ := List.mem_map.mp (h ▸ List.mem_map_of_mem ht')
    exact ⟨r, hr, r', hr', fun heq => hdiffer (by rw [← hrt, ← hrt', heq])⟩
  · rintro ⟨r, hr, r', hr', hdiffer⟩
    obtain ⟨t, ht, hrt⟩ := List.mem_map.mp (h ▸ List.mem_map_of_mem hr)
    obtain ⟨t', ht', hrt'⟩ := List.mem_map.mp (h ▸ List.mem_map_of_mem hr')
    exact ⟨t, ht, t', ht', fun heq => hdiffer (F64.fin.inj (by rw [← hrt, ← hrt', heq]))⟩

private theorem calmar_eq_inf_iff {trades : List Trade} {returns : List ℚ} (c total : ℚ)
    (h : trades.map Trade.rrAchieved = returns.map .fin) :
    calculateCalmarRatio (.fin total) (.fin (greatestFall (returns.scanl (· + ·) c))) = .inf false ↔
      ∀ t ∈ trades, 0 ≤ t.rrAchieved := by
  have hscan : returns.scanl (· + ·) c ≠ [] := by
    cases returns <;> simp [List.scanl_cons, List.scanl_nil]
  have hgreatest := isGreatest_greatestFall hscan
  have hflat : greatestFall (returns.scanl (· + ·) c) = 0 ↔ ∀ r ∈ returns, 0 ≤ r := by
    rw [← falls_scanl_nonpos c returns]
    constructor
    · exact fun hzero d hd => hzero ▸ hgreatest.2 hd
    · exact fun hfalls => le_antisymm (hfalls _ hgreatest.1) (greatestFall_nonneg _)
  have hsame : (∀ r ∈ returns, 0 ≤ r) ↔ ∀ t ∈ trades, 0 ≤ t.rrAchieved := by
    have hmaps : (∀ x ∈ returns.map F64.fin, 0 ≤ x) ↔ ∀ x ∈ trades.map Trade.rrAchieved, 0 ≤ x := by
      rw [h]
    simpa only [List.forall_mem_map, F64.zero_def, F64.fin_le_fin] using hmaps
  rw [← hsame, ← hflat, calculateCalmarRatio, F64.zero_def]
  simp only [F64.fin_eq_fin]
  by_cases hzero : greatestFall (returns.scanl (· + ·) c) = 0
  · rw [if_pos hzero]
    exact iff_of_true rfl hzero
  · rw [if_neg hzero, F64.div_fin hzero]
    exact iff_of_false (by simp) hzero

/-- The ratios of a run without its first trade. Sharpe has the sign of what the later trades achieve
together, unless all of them achieve the same, and then it is zero. The drawdown is zero, and with it
Calmar infinite, exactly when none of them loses. -/
theorem ratios_of_run (hcfg : s.cfg.Finite) (hne : signals ≠ [])
    (hperm : (env.sortByTimestamp signals).Perm signals) (hsound : ∀ sig ∈ signals, sig.Sound s.cfg) :
    (0 < (s.run env signals).1.sharpeRatio ↔
        (s.run env signals).1.equityCurve.headD 0 < (s.run env signals).1.totalRR ∧
          Uneven (s.run env signals).1.trades.tail) ∧
      ((s.run env signals).1.sharpeRatio < 0 ↔
        (s.run env signals).1.totalRR < (s.run env signals).1.equityCurve.headD 0 ∧
          Uneven (s.run env signals).1.trades.tail) ∧
      (calculateCalmarRatio (s.run env signals).1.totalRR (s.run env signals).1.maxDrawdown = .inf false ↔
        ∀ t ∈ (s.run env signals).1.trades.tail, 0 ≤ t.rrAchieved) := by
  have hfinite : (s.run env signals).1.trades.map Trade.rrAchieved =
      ((env.sortByTimestamp signals).map fun sig => (simulateTrade s.cfg sig).rrAchieved.toRat).map
        F64.fin :=
    achieved_fin fun sig hsig => (hsound sig (hperm.mem_iff.mp hsig)).isFinite_rr hcfg
  generalize (env.sortByTimestamp signals).map (fun sig => (simulateTrade s.cfg sig).rrAchieved.toRat)
    = rrs at hfinite
  cases rrs with
  | nil =>
      rw [run_trades, List.map_map, List.map_nil, List.map_eq_nil_iff] at hfinite
      exact absurd (hperm.symm.trans (hfinite ▸ List.Perm.refl _)).eq_nil hne
  | cons first returns =>
      have hcurve : (s.run env signals).1.equityCurve = (returns.scanl (· + ·) (0 + first)).map .fin := by
        have := run_equityCurve_fin hfinite
        rw [List.scanl_cons, List.map_cons] at this
        exact (List.cons.inj this).2
      have htotal : (s.run env signals).1.totalRR = .fin (first + returns.sum) := by
        rw [run_totalRR_fin hfinite, List.sum_cons]
      have htail : (s.run env signals).1.trades.tail.map Trade.rrAchieved = returns.map .fin := by
        rw [List.map_tail, hfinite]
        rfl
      have hhead : (s.run env signals).1.equityCurve.headD 0 = .fin first := by
        rw [hcurve]
        cases returns <;> simp [List.scanl_cons, List.scanl_nil]
      obtain ⟨ratio, hratio, hpos, hneg⟩ := sharpe_of_returns (0 + first) returns
      have hsharpe : (s.run env signals).1.sharpeRatio = .fin ratio := by
        rw [← hratio, ← hcurve]
        rfl
      have hdrawdown : (s.run env signals).1.maxDrawdown =
          .fin (greatestFall (returns.scanl (· + ·) (0 + first))) := by
        rw [← calculateMaxDrawdown_fin, ← hcurve]
        rfl
      refine ⟨?_, ?_, ?_⟩
      · rw [hsharpe, hhead, htotal, uneven_iff htail, F64.zero_def, F64.fin_lt_fin, F64.fin_lt_fin, hpos]
        simp
      · rw [hsharpe, hhead, htotal, uneven_iff htail, F64.zero_def, F64.fin_lt_fin, F64.fin_lt_fin, hneg]
        simp
      · rw [htotal, hdrawdown]
        exact calmar_eq_inf_iff _ _ htail

end Run

theorem ratios_of_run_demo :
    ¬ 0 < ((newSimulator defaultConfig).run plainEnv [shortSignal, longSignal]).1.sharpeRatio := by
  have hsound : ∀ sig ∈ [shortSignal, longSignal], sig.Sound (newSimulator defaultConfig).cfg := by
    refine List.forall_mem_cons.mpr ⟨⟨rfl, ?_⟩, List.forall_mem_singleton.mpr ⟨rfl, ?_⟩⟩
    · decide +kernel
    · decide +kernel
  intro hpos
  obtain ⟨-, t, ht, t', ht', hdiffer⟩ :=
    (ratios_of_run ⟨rfl, rfl⟩ (List.cons_ne_nil _ _) (List.Perm.refl _) hsound).1.mp hpos
  -- There is only one trade after the first.
  exact hdiffer (by rw [List.mem_singleton.mp ht, List.mem_singleton.mp ht'])

end SphereFx.Backtester
