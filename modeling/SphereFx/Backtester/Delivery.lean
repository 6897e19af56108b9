import Mathlib.Algebra.Order.BigOperators.Group.List
import SphereFx.Backtester.Equity
import SphereFx.Backtester.Server

/-!
# When a backtest delivers its result

Without a losing trade the profit factor is infinite, the result cannot be marshalled and the stream
ends with an error after the log lines. Every other number of an admissible run is finite, so the
result is delivered exactly when some signal loses.
-/

namespace SphereFx.Backtester

/-! ### The profit factor -/

/-- The gross sums of trades with finite risk-rewards. -/
private theorem grossSums_of_finite {trades : List Trade} {rrs : List ℚ}
    (h : List.Forall₂ (fun t q => t.rrAchieved = .fin q) trades rrs) :
    grossSums trades = (.fin (rrs.map fun q => if 0 < q then q else 0).sum,
      .fin (rrs.map fun q => if 0 < q then 0 else |q|).sum) := by
  have hfold : ∀ (a b : ℚ), trades.foldl (fun (sums : F64 × F64) t =>
      if 0 < t.rrAchieved then (sums.1 + t.rrAchieved, sums.2)
      else (sums.1, sums.2 + t.rrAchieved.abs)) (.fin a, .fin b) =
      (.fin (a + (rrs.map fun q => if 0 < q then q else 0).sum),
        .fin (b + (rrs.map fun q => if 0 < q then 0 else |q|).sum)) := by
    induction h with
    | nil =>
        intro a b
        simp
    | cons hq _ ih =>
        intro a b
        rw [List.foldl_cons, hq]
        split
        · rename_i hpos
          rw [F64.zero_def, F64.fin_lt_fin] at hpos
          rw [F64.add_fin, ih]
          simp [hpos, add_assoc]
        · rename_i hpos
          rw [F64.zero_def, F64.fin_lt_fin] at hpos
          rw [F64.abs_fin, F64.add_fin, ih]
          simp [hpos, add_assoc]
  have hzero := hfold 0 0
  rw [zero_add, zero_add] at hzero
  exact hzero

private theorem grossLoss_eq_zero_iff (rrs : List ℚ) :
    (rrs.map fun q => if 0 < q then 0 else |q|).sum = 0 ↔ ∀ q ∈ rrs, 0 ≤ q := by
  induction rrs with
  | nil => simp
  | cons q rest ih =>
      have hq : (0 : ℚ) ≤ if 0 < q then 0 else |q| := by
        split
        · exact le_rfl
        · exact abs_nonneg q
      have hrest : 0 ≤ (rest.map fun q : ℚ => if 0 < q then 0 else |q|).sum := by
        apply List.sum_nonneg
        rw [List.forall_mem_map]
        intro r _
        split
        · exact le_rfl
        · exact abs_nonneg r
      rw [List.map_cons, List.sum_cons, add_eq_zero_iff_of_nonneg hq hrest, ih, List.forall_mem_cons]
      refine and_congr_left fun _ => ?_
      split
      · rename_i hpos
        exact ⟨fun _ => hpos.le, fun _ => rfl⟩
      · rename_i hpos
        rw [abs_eq_zero]
        exact ⟨fun h => h.ge, fun h => le_antisymm (not_lt.mp hpos) h⟩

private theorem exists_rrs {trades : List Trade} (h : ∀ t ∈ trades, t.rrAchieved.isFinite = true) :
    ∃ rrs : List ℚ, List.Forall₂ (fun t q => t.rrAchieved = .fin q) trades rrs := by
  induction trades with
  | nil => exact ⟨[], .nil⟩
  | cons t rest ih =>
      obtain ⟨q, hq⟩ := F64.isFinite_iff.mp (h t List.mem_cons_self)
      obtain ⟨rrs, hrrs⟩ := ih fun t ht => h t (List.mem_cons_of_mem _ ht)
      exact ⟨q :: rrs, .cons hq hrrs⟩

private theorem isFinite_profitFactor_iff {trades : List Trade}
    (h : ∀ t ∈ trades, t.rrAchieved.isFinite = true) :
    (calculateProfitFactor trades).isFinite = true ↔ ∃ t ∈ trades, t.rrAchieved < 0 := by
  obtain ⟨rrs, hrrs⟩ := exists_rrs h
  have hlosing : (∃ t ∈ trades, t.rrAchieved < 0) ↔ ¬ ∀ q ∈ rrs, (0 : ℚ) ≤ q := by
    clear h
    induction hrrs with
    | nil => simp
    | cons hq _ ih =>
        rw [List.exists_mem_cons_iff, List.forall_mem_cons, ih, hq, F64.zero_def, F64.fin_lt_fin,
          not_and_or, not_le]
  rw [hlosing, ← grossLoss_eq_zero_iff, calculateProfitFactor, grossSums_of_finite hrrs]
  simp only [F64.zero_def, F64.fin_eq_fin]
  split
  · rename_i hzero
    exact ⟨fun h => (by cases h), fun h => absurd hzero h⟩
  · rename_i hzero
    rw [F64.div_fin hzero]
    exact ⟨fun _ => hzero, fun _ => rfl⟩

/-! ### The other metrics -/

private theorem isFinite_drawdownFrom {equity : List F64} (h : ∀ v ∈ equity, v.isFinite = true)
    {maxDD peak : F64} (hmax : maxDD.isFinite = true) (hpeak : peak.isFinite = true) :
    (drawdownFrom maxDD peak equity).isFinite = true := by
  induction equity generalizing maxDD peak with
  | nil => exact hmax
  | cons v rest ih =>
      have hv : v.isFinite = true := h v List.mem_cons_self
      have hnext : (if peak < v then v else peak).isFinite = true := by
        split
        · exact hv
        · exact hpeak
      have hdd := F64.isFinite_sub hnext hv
      rw [drawdownFrom]
      apply ih (fun v hv => h v (List.mem_cons_of_mem _ hv)) _ hnext
      by_cases hlarger : maxDD < (if peak < v then v else peak) - v
      · simp only [if_pos hlarger]
        exact hdd
      · simp only [if_neg hlarger]
        exact hmax

private theorem isFinite_maxDrawdown {equity : List F64} (h : ∀ v ∈ equity, v.isFinite = true) :
    (calculateMaxDrawdown equity).isFinite = true := by
  unfold calculateMaxDrawdown
  split
  · rfl
  · apply isFinite_drawdownFrom h rfl
    cases equity with
    | nil => rfl
    | cons v rest => exact h v List.mem_cons_self

theorem sumFloats_induction {P : F64 → Prop} (hzero : P 0)
    (hadd : ∀ {x y}, P x → P y → P (x + y)) {values : List F64} (h : ∀ v ∈ values, P v) :
    P (sumFloats values) := by
  have hfold : ∀ start : F64, P start → P (values.foldl (· + ·) start) := by
    induction values with
    | nil => exact fun _ hstart => hstart
    | cons v rest ih =>
        intro start hstart
        exact ih (fun v hv => h v (List.mem_cons_of_mem _ hv)) _
          (hadd hstart (h v List.mem_cons_self))
  exact hfold 0 hzero

private theorem isFinite_sharpeRatio {equity : List F64} (h : ∀ v ∈ equity, v.isFinite = true) :
    (calculateSharpeRatio equity).isFinite = true := by
  unfold calculateSharpeRatio
  split
  · rfl
  rename_i hlength
  have hcount : F64.fin ((returnsOf equity).length : ℚ) ≠ 0 := by
    have hpos : 0 < (returnsOf equity).length := by
      rw [returnsOf, List.length_zipWith, List.length_tail]
      omega
    rw [F64.zero_def]
    intro hzero
    exact absurd (F64.fin.inj hzero) (Nat.cast_ne_zero.mpr hpos.ne')
  have hreturns : ∀ r ∈ returnsOf equity, r.isFinite = true := by
    intro r hr
    rw [returnsOf, ← List.map_uncurry_zip_eq_zipWith] at hr
    obtain ⟨pair, hpair, rfl⟩ := List.mem_map.mp hr
    obtain ⟨hnext, hnow⟩ := List.of_mem_zip hpair
    exact F64.isFinite_sub (h _ (List.mem_of_mem_tail hnext)) (h _ hnow)
  have hmean : (sumFloats (returnsOf equity) / .fin (returnsOf equity).length).isFinite = true :=
    F64.isFinite_div
      (sumFloats_induction (P := fun x => x.isFinite = true) rfl F64.isFinite_add hreturns) rfl hcount
  obtain ⟨mean, hmean⟩ := F64.isFinite_iff.mp hmean
  -- The variance is a sum of squares, so its root is not NaN.
  obtain ⟨variance, hvariance, hnonneg⟩ : ∃ q : ℚ, sumFloats ((returnsOf equity).map fun r =>
      (r - .fin mean) * (r - .fin mean)) = .fin q ∧ 0 ≤ q := by
    apply sumFloats_induction (P := fun x => ∃ q : ℚ, x = .fin q ∧ 0 ≤ q)
    · exact ⟨0, rfl, le_rfl⟩
    · rintro x y ⟨a, rfl, ha⟩ ⟨b, rfl, hb⟩
      exact ⟨a + b, rfl, add_nonneg ha hb⟩
    · rw [List.forall_mem_map]
      intro r hr
      obtain ⟨q, rfl⟩ := F64.isFinite_iff.mp (hreturns r hr)
      exact ⟨(q - mean) * (q - mean), by rw [F64.sub_fin, F64.mul_fin], mul_self_nonneg _⟩
  have hdivisor : ((returnsOf equity).length : ℚ) ≠ 0 := fun h => hcount (congrArg F64.fin h)
  have hroot : ∃ root : ℚ, (F64.fin variance / .fin (returnsOf equity).length).sqrt = .fin root := by
    rw [F64.div_fin hdivisor, F64.sqrt, if_neg (not_lt.mpr (div_nonneg hnonneg (Nat.cast_nonneg _)))]
    exact ⟨_, rfl⟩
  obtain ⟨root, hroot⟩ := hroot
  simp only [hmean, hvariance, hroot, F64.zero_def, F64.fin_eq_fin]
  split
  · rfl
  · rename_i hne
    rw [F64.div_fin hne]
    rfl

/-! ### Losing signals -/

/-- The trade is booked with a negative risk-reward. With a positive scale that is a target reached
over a stop above the entry or a stop that is hit, with a negative one a target reached over a stop
below the entry. -/
def Signal.Loses (cfg : Config) (sig : Signal) : Prop :=
  0 < cfg.defaultRR ∧ (sig.TargetAhead cfg ∧ adjustedEntry cfg sig < sig.stopLoss ∨
      ¬ sig.TargetAhead cfg ∧ sig.StopBehind cfg) ∨
    cfg.defaultRR < 0 ∧ sig.TargetAhead cfg ∧ sig.stopLoss < adjustedEntry cfg sig

section Losing

variable {cfg : Config} {sig : Signal} {p : Position}

theorem loses_iff (hcfg : cfg.Finite) (h : sig.Sound cfg) :
    (simulateTrade cfg sig).rrAchieved < 0 ↔ sig.Loses cfg := by
  obtain ⟨p, factor, hp, hfactor, -, htrade⟩ := h.simulated hcfg
  have hneg : p.rr < 0 ↔ p.targetAhead = true ∧ p.entry < p.stop ∨
      ¬ p.targetAhead = true ∧ p.stopBehind = true := by
    rw [p.rr_neg_iff]
    by_cases hahead : p.targetAhead = true
    · rw [if_pos hahead]
      exact ⟨fun h => Or.inl ⟨hahead, h⟩, fun h => h.elim And.right fun h => absurd hahead h.1⟩
    · rw [if_neg hahead]
      exact ⟨fun h => Or.inr ⟨hahead, h⟩, fun h => h.elim (fun h => absurd h.1 hahead) And.right⟩
  rw [htrade, Signal.Loses, hfactor, targetAhead_iff hp, stopBehind_iff hp, hp.entry, hp.stop]
  simp only [F64.zero_def, F64.fin_lt_fin]
  have hhalfPos : 0 < factor / 2 ↔ 0 < factor := ⟨fun h => by linarith, half_pos⟩
  have hhalfNeg : factor / 2 < 0 ↔ factor < 0 := ⟨fun h => by linarith, fun h => by linarith⟩
  rw [mul_neg_iff, p.rr_pos_iff, hneg, hhalfPos, hhalfNeg, or_comm, and_comm,
    and_comm (b := factor < 0)]

end Losing

/-! ### Delivery -/

/-- The stream got the log lines of the run in order and one result line, and no error. -/
structure Delivered (outcome : List BacktestLogLine × Option String) (result : SimulationResult) :
    Prop where
  noError : outcome.2 = none
  lines : ∃ message, outcome.1 = result.logs.map LogLine.toPb ++ [resultLine message]
  oneResult : (outcome.1.filter fun line => line.level = "RESULT").length = 1

section Run

variable {codec : JsonCodec} {sends : Sends} {env : RunEnv} {sim : Simulator}

/-- The numbers of a run over sound signals, apart from the profit factor, are finite. -/
private theorem run_floats {signals : List Signal} (hcfg : sim.cfg.Finite) (hsignals : signals ≠ [])
    (hsort : (env.sortByTimestamp signals).Perm signals) (hsound : ∀ sig ∈ signals, sig.Sound sim.cfg) :
    (∀ x ∈ (sim.run env signals).1.floats, x.isFinite = true) ↔
      (sim.run env signals).1.profitFactor.isFinite = true := by
  have hsorted : ∀ sig ∈ env.sortByTimestamp signals, sig.Sound sim.cfg :=
    fun sig hsig => hsound sig (hsort.mem_iff.mp hsig)
  have htrades : ∀ t ∈ (sim.run env signals).1.trades, t.entryPrice.isFinite = true ∧
      t.exitPrice.isFinite = true ∧ t.rrAchieved.isFinite = true := by
    rw [run_trades, List.forall_mem_map]
    intro sig hsig
    obtain ⟨p, factor, -, -, -, htrade⟩ := (hsorted sig hsig).simulated hcfg
    rw [htrade]
    exact ⟨rfl, rfl, rfl⟩
  have hequity : ∀ v ∈ (sim.run env signals).1.equityCurve, v.isFinite = true := by
    rw [run_equityCurve, ← run_trades]
    exact isFinite_equityFrom (fun t ht => (htrades t ht).2.2) rfl
  have htotal : (sim.run env signals).1.totalRR.isFinite = true := by
    rw [run_totalRR]
    rcases List.mem_cons.mp (List.getLastD_mem_cons (l := (sim.run env signals).1.equityCurve)
      (a := 0)) with hzero | hpoint
    · rw [hzero]
      rfl
    · exact hequity _ hpoint
  have hwinRate : (sim.run env signals).1.winRate.isFinite = true := by
    have hlength : (sim.run env signals).1.trades.length ≠ 0 := by
      rw [run_trades, List.length_map, hsort.length_eq]
      exact fun h => hsignals (List.length_eq_zero_iff.mp h)
    show (F64.fin _ / .fin ((sim.run env signals).1.trades.length : ℚ) * .fin 100).isFinite = true
    rw [F64.div_fin (Nat.cast_ne_zero.mpr hlength)]
    rfl
  constructor
  · intro h
    exact h _ (by simp [SimulationResult.floats])
  · intro hfactor x hx
    simp only [SimulationResult.floats, List.cons_append, List.nil_append, List.mem_cons,
      List.mem_append, List.mem_flatMap, List.not_mem_nil, or_false] at hx
    rcases hx with rfl | rfl | rfl | rfl | rfl | hx | ⟨t, ht, rfl | rfl | rfl⟩
    · exact hwinRate
    · exact htotal
    · exact hfactor
    · exact isFinite_maxDrawdown hequity
    · exact isFinite_sharpeRatio hequity
    · exact hequity x hx
    · exact (htrades t ht).1
    · exact (htrades t ht).2.1
    · exact (htrades t ht).2.2

/-- What an admissible request with working sends leads to. -/
theorem runBacktest_eq {req : BacktestRequest} (hsignals : req.signals ≠ [])
    (hconfig : req.configJson = "" ∨ codec.unmarshalMap req.configJson = .ok ())
    (hsends : ∀ n, sends n = none) :
    (runBacktest codec sends env sim req).1 =
      match codec.marshal (sim.run env (req.signals.map PbSignal.toSignal)).1 with
      | .error cause => ((sim.run env (req.signals.map PbSignal.toSignal)).1.logs.map LogLine.toPb,
          some ("failed to serialize result: " ++ cause))
      | .ok message => ((sim.run env (req.signals.map PbSignal.toSignal)).1.logs.map LogLine.toPb ++
          [resultLine message], none) := by
  have hparsed : (if req.configJson = "" then .ok () else codec.unmarshalMap req.configJson) =
      (.ok () : Except String Unit) := by
    rcases hconfig with hempty | hvalid
    · rw [if_pos hempty]
    · rw [hvalid, ite_self]
  simp only [runBacktest, if_neg hsignals, hparsed, sendAll_of_successful hsends, List.nil_append]
  cases codec.marshal (sim.run env (req.signals.map PbSignal.toSignal)).1 with
  | error cause => rfl
  | ok message => rfl

/-- An admissible backtest delivers its result exactly when one of its signals loses. -/
theorem result_delivered_iff {req : BacktestRequest} (hcfg : sim.cfg.Finite)
    (hsignals : req.signals ≠ [])
    (hsort : (env.sortByTimestamp (req.signals.map PbSignal.toSignal)).Perm
      (req.signals.map PbSignal.toSignal))
    (hsound : ∀ pbSig ∈ req.signals, pbSig.toSignal.Sound sim.cfg)
    (hconfig : req.configJson = "" ∨ codec.unmarshalMap req.configJson = .ok ())
    (hsends : ∀ n, sends n = none) :
    Delivered (runBacktest codec sends env sim req).1
        (sim.run env (req.signals.map PbSignal.toSignal)).1 ↔
      ∃ pbSig ∈ req.signals, pbSig.toSignal.Loses sim.cfg := by
  have hall : ∀ sig ∈ req.signals.map PbSignal.toSignal, sig.Sound sim.cfg :=
    List.forall_mem_map.mpr hsound
  have hnonempty : req.signals.map PbSignal.toSignal ≠ [] :=
    fun h => hsignals (List.map_eq_nil_iff.mp h)
  have hfloats := @run_floats env _ _ hcfg hnonempty hsort hall
  have hrrs : ∀ t ∈ (sim.run env (req.signals.map PbSignal.toSignal)).1.trades,
      t.rrAchieved.isFinite = true := by
    rw [run_trades, List.forall_mem_map]
    intro sig hsig
    obtain ⟨p, factor, -, -, -, htrade⟩ := (hall sig (hsort.mem_iff.mp hsig)).simulated hcfg
    rw [htrade]
    rfl
  have hloses : (∃ pbSig ∈ req.signals, pbSig.toSignal.Loses sim.cfg) ↔
      (sim.run env (req.signals.map PbSignal.toSignal)).1.profitFactor.isFinite = true := by
    show _ ↔ (calculateProfitFactor
      (sim.run env (req.signals.map PbSignal.toSignal)).1.trades).isFinite = true
    rw [isFinite_profitFactor_iff hrrs, run_trades]
    constructor
    · rintro ⟨pbSig, hpb, hloses⟩
      have hmem := List.mem_map_of_mem (f := PbSignal.toSignal) hpb
      exact ⟨_, List.mem_map_of_mem (hsort.mem_iff.mpr hmem), (loses_iff hcfg (hall _ hmem)).mpr hloses⟩
    · rintro ⟨t, ht, hneg⟩
      obtain ⟨sig, hsig, rfl⟩ := List.mem_map.mp ht
      have hmem := hsort.mem_iff.mp hsig
      obtain ⟨pbSig, hpb, rfl⟩ := List.mem_map.mp hmem
      exact ⟨pbSig, hpb, (loses_iff hcfg (hall _ hmem)).mp hneg⟩
  rw [hloses, ← hfloats, runBacktest_eq hsignals hconfig hsends]
  cases hmarshal : codec.marshal (sim.run env (req.signals.map PbSignal.toSignal)).1 with
  | error cause =>
      refine ⟨fun h => (by cases h.noError), fun h => ?_⟩
      rw [marshal_eq_ok.mpr ⟨h, rfl⟩] at hmarshal
      cases hmarshal
  | ok message =>
      refine ⟨fun _ => (marshal_eq_ok.mp hmarshal).1, fun _ => ⟨rfl, ⟨message, rfl⟩, ?_⟩⟩
      have hlogs : ((sim.run env (req.signals.map PbSignal.toSignal)).1.logs.map LogLine.toPb).filter
          (fun line => line.level = "RESULT") = [] := by
        rw [List.filter_eq_nil_iff, List.forall_mem_map]
        intro line hline
        have hinfo : line.toPb.level = "INFO" := run_logs env sim _ line hline
        rw [hinfo]
        decide
      rw [List.filter_append, hlogs]
      rfl

end Run

/-! ### A run without a loss -/

def longRequest : BacktestRequest :=
  ⟨[⟨2, "EURUSD", "BUY", "LIMIT", .fin (11 / 10), .fin (109 / 100), [.fin (111 / 100)], some 1, "demo",
    80⟩], ""⟩

/-- The same signal without a target, which runs into its stop. -/
def stoppedRequest : BacktestRequest :=
  ⟨[⟨2, "EURUSD", "BUY", "LIMIT", .fin (11 / 10), .fin (109 / 100), [], some 1, "demo", 80⟩], ""⟩

def plainCodec : JsonCodec := ⟨fun _ => .ok (), fun _ => "{}"⟩

theorem winning_run_fails :
    (∀ pbSig ∈ longRequest.signals, pbSig.toSignal.Sound defaultConfig) ∧
    (runBacktest plainCodec (fun _ => none) plainEnv (newSimulator defaultConfig) longRequest).1.2 =
      some "failed to serialize result: json: unsupported value: +Inf" ∧
    ¬ Delivered (runBacktest plainCodec (fun _ => none) plainEnv (newSimulator defaultConfig)
      longRequest).1 ((newSimulator defaultConfig).run plainEnv
        (longRequest.signals.map PbSignal.toSignal)).1 := by
  have herror : (runBacktest plainCodec (fun _ => none) plainEnv (newSimulator defaultConfig)
      longRequest).1.2 = some "failed to serialize result: json: unsupported value: +Inf" := by
    decide +kernel
  refine ⟨List.forall_mem_singleton.mpr ⟨by decide +kernel, by decide +kernel⟩, herror, ?_⟩
  intro h
  have hnone := h.noError
  rw [herror] at hnone
  cases hnone

theorem result_delivered_iff_of_stopped :
    Delivered (runBacktest plainCodec (fun _ => none) plainEnv (newSimulator defaultConfig)
      stoppedRequest).1 ((newSimulator defaultConfig).run plainEnv
        (stoppedRequest.signals.map PbSignal.toSignal)).1 := by
  have hsound : ∀ pbSig ∈ stoppedRequest.signals, pbSig.toSignal.Sound defaultConfig :=
    List.forall_mem_singleton.mpr ⟨by decide +kernel, by decide +kernel⟩
  refine (result_delivered_iff ⟨rfl, rfl⟩ (List.cons_ne_nil _ _) (List.Perm.refl _) hsound (Or.inl rfl)
    fun _ => rfl).mpr ⟨_, List.mem_cons_self, Or.inl ⟨by decide +kernel, Or.inr ⟨?_, by decide +kernel⟩⟩⟩
  rintro ⟨tp, htp, -⟩
  cases htp

end SphereFx.Backtester
