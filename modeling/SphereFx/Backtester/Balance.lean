import SphereFx.Backtester.Equity

/-!
# The books of a run balance

The running total adds the trades with two of the three labels, the profit factor sums all trades by
their sign. Both come to the same: an open trade achieves zero, so the total is the gross profit less
the gross loss.
-/

namespace SphereFx.Backtester

/-- Counts, curve and totals of a result fit together. -/
structure Balanced (signals : List Signal) (r : SimulationResult) : Prop where
  total : r.totalSignals = signals.length
  outcomes : r.totalSignals =
    r.winCount + r.lossCount + r.trades.countP (·.outcome = .stillOpen)
  length : r.equityCurve.length = signals.length
  curve : ∀ i, i < signals.length →
    r.equityCurve[i]? = some (sumFloats ((r.trades.take (i + 1)).map Trade.rrAchieved))
  last : r.equityCurve.getLast? = some r.totalRR
  gross : r.totalRR = (grossSums r.trades).1 - (grossSums r.trades).2
  factor : F64.fin 1 ≤ r.profitFactor ↔ 0 ≤ r.totalRR

/-! ### Finite trades -/

theorem sumFloats_fin (rrs : List ℚ) : sumFloats (rrs.map .fin) = .fin rrs.sum := by
  have hfold : ∀ (rrs : List ℚ) (c : ℚ),
      (rrs.map F64.fin).foldl (· + ·) (.fin c) = .fin (c + rrs.sum) := by
    intro rrs
    induction rrs with
    | nil =>
        intro c
        rw [List.sum_nil, add_zero]
        rfl
    | cons r rest ih =>
        intro c
        rw [List.map_cons, List.foldl_cons, F64.add_fin, ih, List.sum_cons, add_assoc]
  rw [sumFloats, F64.zero_def, hfold, zero_add]

/-- A loop of `calculateProfitFactor` that starts with two sums adds the signed achievements to their
difference. -/
private theorem foldl_gross_fin {trades : List Trade} {rrs : List ℚ} (profit loss : ℚ)
    (hrrs : trades.map Trade.rrAchieved = rrs.map .fin) (hprofit : 0 ≤ profit) (hloss : 0 ≤ loss) :
    ∃ profit' loss', trades.foldl (fun sums t =>
        if 0 < t.rrAchieved then (sums.1 + t.rrAchieved, sums.2)
        else (sums.1, sums.2 + t.rrAchieved.abs)) (.fin profit, .fin loss) =
          (.fin profit', .fin loss') ∧ profit' - loss' = profit - loss + rrs.sum ∧
            0 ≤ profit' ∧ 0 ≤ loss' := by
  induction trades generalizing rrs profit loss with
  | nil =>
      obtain rfl := List.map_eq_nil_iff.mp hrrs.symm
      exact ⟨profit, loss, rfl, (add_zero _).symm, hprofit, hloss⟩
  | cons trade rest ih =>
      obtain ⟨r, more, rfl, hr, hmore⟩ := List.map_eq_cons_iff.mp hrrs.symm
      rw [List.foldl_cons, ← hr, List.sum_cons]
      by_cases hpos : 0 < r
      · obtain ⟨profit', loss', hfold, hdiff, hsigns⟩ := ih (profit + r) loss hmore.symm
          (add_nonneg hprofit hpos.le) hloss
        refine ⟨profit', loss', ?_, by rw [hdiff]; ring, hsigns⟩
        rw [F64.zero_def, if_pos (F64.fin_lt_fin.mpr hpos), F64.add_fin]
        exact hfold
      · obtain ⟨profit', loss', hfold, hdiff, hsigns⟩ := ih profit (loss + |r|) hmore.symm
          hprofit (add_nonneg hloss (abs_nonneg r))
        refine ⟨profit', loss', ?_, ?_, hsigns⟩
        · rw [F64.zero_def, if_neg (mt F64.fin_lt_fin.mp hpos), F64.abs_fin, F64.add_fin]
          exact hfold
        · rw [hdiff, abs_of_nonpos (not_lt.mp hpos)]
          ring

theorem grossSums_fin {trades : List Trade} {rrs : List ℚ}
    (hrrs : trades.map Trade.rrAchieved = rrs.map .fin) :
    ∃ profit loss, grossSums trades = (.fin profit, .fin loss) ∧ profit - loss = rrs.sum ∧
      0 ≤ profit ∧ 0 ≤ loss := by
  obtain ⟨profit, loss, hfold, hdiff, hsigns⟩ := foldl_gross_fin 0 0 hrrs le_rfl le_rfl
  rw [sub_self, zero_add] at hdiff
  exact ⟨profit, loss, hfold, hdiff, hsigns⟩

private theorem one_le_profitFactor_iff {trades : List Trade} {rrs : List ℚ}
    (hrrs : trades.map Trade.rrAchieved = rrs.map .fin) :
    F64.fin 1 ≤ calculateProfitFactor trades ↔ 0 ≤ rrs.sum := by
  obtain ⟨profit, loss, hgross, hdiff, hprofit, hloss⟩ := grossSums_fin hrrs
  rw [calculateProfitFactor, hgross, ← hdiff, F64.zero_def]
  simp only [F64.fin_eq_fin]
  by_cases hzero : loss = 0
  · rw [if_pos hzero, F64.fin_le_inf, hzero, sub_zero]
    exact ⟨fun _ => hprofit, fun _ => rfl⟩
  · have hpos : 0 < loss := lt_of_le_of_ne hloss (Ne.symm hzero)
    rw [if_neg hzero, F64.div_fin hzero, F64.fin_le_fin, one_le_div hpos, sub_nonneg]

private theorem countP_outcomes (trades : List Trade) : trades.length =
    trades.countP (·.outcome = .tpHit) + trades.countP (·.outcome = .slHit) +
      trades.countP (·.outcome = .stillOpen) := by
  induction trades with
  | nil => rfl
  | cons trade rest ih =>
      rw [List.length_cons, ih]
      simp only [List.countP_cons, decide_eq_true_eq]
      cases trade.outcome <;> simp <;> omega

/-! ### The run -/

section Run

variable {env : RunEnv} {s : Simulator} {signals : List Signal} {rrs : List ℚ}

theorem run_equityCurve_fin
    (hrrs : (s.run env signals).1.trades.map Trade.rrAchieved = rrs.map .fin) :
    0 :: (s.run env signals).1.equityCurve = (rrs.scanl (· + ·) 0).map F64.fin := by
  rw [run_equityCurve]
  rw [run_trades] at hrrs
  apply equityFrom_fin hrrs
  intro t ht hopen
  obtain ⟨sig, -, rfl⟩ := List.mem_map.mp ht
  apply rr_of_stillOpen hopen
  obtain ⟨r, -, hr⟩ := List.mem_map.mp (hrrs ▸ List.mem_map_of_mem ht)
  rw [← hr]
  rfl

theorem run_equityCurve_length
    (hrrs : (s.run env signals).1.trades.map Trade.rrAchieved = rrs.map .fin) :
    (s.run env signals).1.equityCurve.length = rrs.length := by
  have hlengths := congrArg List.length (run_equityCurve_fin hrrs)
  rw [List.length_cons, List.length_map, List.length_scanl] at hlengths
  exact Nat.succ.inj hlengths

private theorem run_equityCurve_point
    (hrrs : (s.run env signals).1.trades.map Trade.rrAchieved = rrs.map .fin) {i : Nat}
    (hi : i < rrs.length) :
    (s.run env signals).1.equityCurve[i]? = some (.fin (rrs.take (i + 1)).sum) := by
  have hshift : (s.run env signals).1.equityCurve[i]? =
      (0 :: (s.run env signals).1.equityCurve)[i + 1]? := rfl
  rw [hshift, run_equityCurve_fin hrrs, List.getElem?_map, List.getElem?_scanl,
    if_pos (Nat.succ_le_of_lt hi), ← List.sum_eq_foldl]
  rfl

theorem run_totalRR_fin
    (hrrs : (s.run env signals).1.trades.map Trade.rrAchieved = rrs.map .fin) :
    (s.run env signals).1.totalRR = .fin rrs.sum := by
  have hlast := congrArg List.getLast? (run_equityCurve_fin hrrs)
  rw [List.getLast?_cons, List.getLast?_map, List.getLast?_scanl, ← List.sum_eq_foldl,
    ← List.getLastD_eq_getLast?, ← run_totalRR] at hlast
  exact Option.some.inj hlast

private theorem run_totalRR_last (hne : (s.run env signals).1.equityCurve ≠ []) :
    (s.run env signals).1.equityCurve.getLast? = some (s.run env signals).1.totalRR := by
  rw [run_totalRR, List.getLastD_eq_getLast?, List.getLast?_eq_getLast_of_ne_nil hne]
  rfl

theorem balanced_of_finite (hne : signals ≠ [])
    (hsort : (env.sortByTimestamp signals).length = signals.length)
    (hrrs : (s.run env signals).1.trades.map Trade.rrAchieved = rrs.map .fin) :
    Balanced signals (s.run env signals).1 := by
  have htrades : (s.run env signals).1.trades.length = signals.length := by
    rw [run_trades, List.length_map, hsort]
  have hlength : rrs.length = signals.length := by
    have hmaps := congrArg List.length hrrs
    rw [List.length_map, List.length_map] at hmaps
    exact hmaps.symm.trans htrades
  have htotal : (s.run env signals).1.totalSignals = (s.run env signals).1.trades.length := rfl
  have htotalRR := run_totalRR_fin hrrs
  refine ⟨?_, ?_, ?_, ?_, ?_, ?_, ?_⟩
  · rw [htotal, htrades]
  · rw [htotal, run_winCount, run_lossCount, countP_outcomes]
  · rw [run_equityCurve_length hrrs, hlength]
  · intro i hi
    rw [run_equityCurve_point hrrs (hlength ▸ hi), List.map_take, hrrs, ← List.map_take,
      sumFloats_fin]
  · apply run_totalRR_last
    apply List.ne_nil_of_length_pos
    rw [run_equityCurve_length hrrs, hlength]
    exact List.length_pos_iff.mpr hne
  · obtain ⟨profit, loss, hgross, hdiff, -⟩ := grossSums_fin hrrs
    rw [htotalRR, hgross, ← hdiff, F64.sub_fin]
  · rw [htotalRR, F64.zero_def, F64.fin_le_fin]
    exact one_le_profitFactor_iff hrrs

theorem achieved_fin
    (hfinite : ∀ sig ∈ env.sortByTimestamp signals, (simulateTrade s.cfg sig).rrAchieved.isFinite = true) :
    (s.run env signals).1.trades.map Trade.rrAchieved =
      ((env.sortByTimestamp signals).map fun sig => (simulateTrade s.cfg sig).rrAchieved.toRat).map
        F64.fin := by
  rw [run_trades, List.map_map, List.map_map, List.map_inj_left]
  exact fun sig hsig => (F64.fin_toRat (hfinite sig hsig)).symm

theorem Signal.Sound.isFinite_rr {cfg : Config} {sig : Signal} (h : sig.Sound cfg)
    (hcfg : cfg.Finite) : (simulateTrade cfg sig).rrAchieved.isFinite = true := by
  obtain ⟨p, factor, -, -, -, htrade⟩ := h.simulated hcfg
  rw [htrade]
  rfl

/-- The books of every run over sound signals balance. -/
theorem books_balance (hcfg : s.cfg.Finite) (hne : signals ≠ [])
    (hperm : (env.sortByTimestamp signals).Perm signals)
    (hsound : ∀ sig ∈ signals, sig.Sound s.cfg) : Balanced signals (s.run env signals).1 := by
  apply balanced_of_finite hne hperm.length_eq
  apply achieved_fin
  exact fun sig hsig => (hsound sig (hperm.mem_iff.mp hsig)).isFinite_rr hcfg

end Run

theorem books_balance_demo :
    Balanced [shortSignal, longSignal]
      ((newSimulator defaultConfig).run plainEnv [shortSignal, longSignal]).1 := by
  apply books_balance (s := newSimulator defaultConfig) ⟨rfl, rfl⟩ (List.cons_ne_nil _ _)
    (List.Perm.refl _)
  refine List.forall_mem_cons.mpr ⟨⟨rfl, ?_⟩, List.forall_mem_singleton.mpr ⟨rfl, ?_⟩⟩
  · decide +kernel
  · decide +kernel

end SphereFx.Backtester
