import SphereFx.Backtester.Equity

/-!
# The divisions of a simulated trade

`simulateTrade` once more, with a record of the divisors it divides by. The exits at a target are the
only ones without a comparison of the entry with the stop: a target that is reached by a trade whose
stop is its own entry divides by zero, and the curve is not finite from there on.
-/

namespace SphereFx.Backtester

/-- A value and the divisors met on the way to it. -/
structure Divided (β : Type) where
  value : β
  divisors : List F64

instance : Monad Divided where
  pure value := ⟨value, []⟩
  bind x f := ⟨(f x.value).value, x.divisors ++ (f x.value).divisors⟩

namespace Divided

variable {β γ : Type}

@[simp] theorem value_pure (b : β) : (pure b : Divided β).value = b := rfl

@[simp] theorem divisors_pure (b : β) : (pure b : Divided β).divisors = [] := rfl

@[simp] theorem value_bind (x : Divided β) (f : β → Divided γ) :
    (x >>= f).value = (f x.value).value := rfl

@[simp] theorem divisors_bind (x : Divided β) (f : β → Divided γ) :
    (x >>= f).divisors = x.divisors ++ (f x.value).divisors := rfl

end Divided

/-- A division, recorded. -/
def divide (x y : F64) : Divided F64 := ⟨x / y, [y]⟩

def buyExitDivided (entry : F64) (sig : Signal) : Divided Exit :=
  let stopped : Divided Exit :=
    if sig.stopLoss < entry then do
      let rr ← divide (sig.stopLoss - entry) (entry - sig.stopLoss)
      return stopExit sig.stopLoss rr
    else return openExit entry
  match sig.takeProfit with
  | tpPrice :: _ =>
      if entry < tpPrice then do
        let rr ← divide (tpPrice - entry) (entry - sig.stopLoss)
        return ⟨tpPrice, .tpHit, rr⟩
      else stopped
  | [] => stopped

def sellExitDivided (entry : F64) (sig : Signal) : Divided Exit :=
  let stopped : Divided Exit :=
    if entry < sig.stopLoss then do
      let rr ← divide (entry - sig.stopLoss) (entry - sig.stopLoss)
      return stopExit sig.stopLoss rr
    else return openExit entry
  match sig.takeProfit with
  | tpPrice :: _ =>
      if tpPrice < entry then do
        let rr ← divide (entry - tpPrice) (entry - sig.stopLoss)
        return ⟨tpPrice, .tpHit, rr⟩
      else stopped
  | [] => stopped

def simulateTradeDivided (cfg : Config) (sig : Signal) : Divided Trade := do
  let spreadAdj ← divide cfg.spreadPips (.fin 10000)
  let entry := if sig.action = "BUY" then sig.entryPrice + spreadAdj else sig.entryPrice - spreadAdj
  let ending ← if sig.action = "BUY" then buyExitDivided entry sig else sellExitDivided entry sig
  let rr ← divide (ending.rr * cfg.defaultRR) (.fin 2)
  return {
    signalId := sig.id
    symbol := sig.symbol
    action := sig.action
    entryPrice := entry
    exitPrice := ending.price
    rrAchieved := rr
    outcome := ending.outcome }

/-! ### The recorded run is the run -/

private theorem value_buyExitDivided (entry : F64) (sig : Signal) :
    (buyExitDivided entry sig).value = buyExit entry sig := by
  unfold buyExitDivided buyExit
  cases sig.takeProfit with
  | nil => exact apply_ite Divided.value _ _ _
  | cons tp rest =>
      simp only [apply_ite Divided.value]
      rfl

private theorem value_sellExitDivided (entry : F64) (sig : Signal) :
    (sellExitDivided entry sig).value = sellExit entry sig := by
  unfold sellExitDivided sellExit
  cases sig.takeProfit with
  | nil => exact apply_ite Divided.value _ _ _
  | cons tp rest =>
      simp only [apply_ite Divided.value]
      rfl

theorem value_simulateTradeDivided (cfg : Config) (sig : Signal) :
    (simulateTradeDivided cfg sig).value = simulateTrade cfg sig := by
  unfold simulateTradeDivided simulateTrade adjustedEntry
  by_cases hbuy : sig.action = "BUY"
  · simp only [if_pos hbuy, Divided.value_bind, value_buyExitDivided]
    rfl
  · simp only [if_neg hbuy, Divided.value_bind, value_sellExitDivided]
    rfl

/-! ### Which divisors there are -/

theorem mem_divisors_stopped {c : Prop} [Decidable c] {x y d : F64} {f : F64 → Exit} {e : Exit} :
    d ∈ (if c then (do let rr ← divide x y; return f rr) else return e : Divided Exit).divisors ↔
      c ∧ d = y := by
  by_cases hc : c
  · simp [hc, divide]
  · simp [hc]

/-- Either exit divides by the risk, at its target or at its stop. -/
theorem mem_divisors_exit {ahead : F64 → Prop} [DecidablePred ahead] {behind : Prop}
    [Decidable behind] {profit : F64 → F64} {loss risk d : F64} {hit : F64 → F64 → Exit}
    {stop : F64 → Exit} {still : Exit} (targets : List F64) :
    d ∈ (match targets with
      | tp :: _ =>
          if ahead tp then (do let rr ← divide (profit tp) risk; return hit tp rr)
          else if behind then (do let rr ← divide loss risk; return stop rr) else return still
      | [] => if behind then (do let rr ← divide loss risk; return stop rr) else return still :
        Divided Exit).divisors ↔
      d = risk ∧ ((∃ tp, targets.head? = some tp ∧ ahead tp) ∨ behind) := by
  cases targets with
  | nil => simp only [mem_divisors_stopped]; simp [and_comm]
  | cons tp rest =>
      by_cases htp : ahead tp
      · simp [htp, divide]
      · simp only [if_neg htp, mem_divisors_stopped]
        simp [htp, and_comm]

private theorem mem_divisors_buyExit {entry d : F64} {sig : Signal} :
    d ∈ (buyExitDivided entry sig).divisors ↔ d = entry - sig.stopLoss ∧
      ((∃ tp, sig.takeProfit.head? = some tp ∧ entry < tp) ∨ sig.stopLoss < entry) :=
  mem_divisors_exit sig.takeProfit

private theorem mem_divisors_sellExit {entry d : F64} {sig : Signal} :
    d ∈ (sellExitDivided entry sig).divisors ↔ d = entry - sig.stopLoss ∧
      ((∃ tp, sig.takeProfit.head? = some tp ∧ tp < entry) ∨ entry < sig.stopLoss) :=
  mem_divisors_exit sig.takeProfit

theorem mem_divisors {cfg : Config} {sig : Signal} {d : F64} :
    d ∈ (simulateTradeDivided cfg sig).divisors ↔ d = .fin 10000 ∨ d = .fin 2 ∨
      d = adjustedEntry cfg sig - sig.stopLoss ∧ (sig.TargetAhead cfg ∨ sig.StopBehind cfg) := by
  have hentry : (if sig.action = "BUY" then sig.entryPrice + (divide cfg.spreadPips (.fin 10000)).value
      else sig.entryPrice - (divide cfg.spreadPips (.fin 10000)).value) = adjustedEntry cfg sig := rfl
  simp only [simulateTradeDivided, Divided.divisors_bind, hentry, List.mem_append]
  by_cases hbuy : sig.action = "BUY"
  · simp only [if_pos hbuy, Signal.TargetAhead, Signal.StopBehind, ← mem_divisors_buyExit, divide,
      List.mem_singleton, List.mem_append, Divided.divisors_bind, Divided.divisors_pure,
      List.not_mem_nil, or_false]
    exact or_congr_right or_comm
  · simp only [if_neg hbuy, Signal.TargetAhead, Signal.StopBehind, ← mem_divisors_sellExit, divide,
      List.mem_singleton, List.mem_append, Divided.divisors_bind, Divided.divisors_pure,
      List.not_mem_nil, or_false]
    exact or_congr_right or_comm

/-! ### When one of them is zero -/

/-- The first target is reached by a trade whose stop is its own entry. -/
def Signal.TargetWithoutRisk (cfg : Config) (sig : Signal) : Prop :=
  sig.TargetAhead cfg ∧ sig.stopLoss = adjustedEntry cfg sig

/-- No division by zero in the trades of a run, and finite values throughout. -/
structure DividesSafely (cfg : Config) (signals : List Signal) (r : SimulationResult) : Prop where
  divisors : ∀ sig ∈ signals, ∀ d ∈ (simulateTradeDivided cfg sig).divisors, d ≠ 0
  trades : ∀ t ∈ r.trades, t.rrAchieved.isFinite = true
  curve : ∀ point ∈ r.equityCurve, point.isFinite = true

private theorem sub_eq_zero_iff {x y : F64} (hx : x.isFinite = true) (hy : y.isFinite = true) :
    x - y = 0 ↔ y = x := by
  obtain ⟨a, rfl⟩ := F64.isFinite_iff.mp hx
  obtain ⟨b, rfl⟩ := F64.isFinite_iff.mp hy
  rw [F64.sub_fin, F64.zero_def, F64.fin.injEq, F64.fin.injEq, sub_eq_zero]
  exact eq_comm

section Safe

variable {cfg : Config} {sig : Signal}

theorem divisors_ne_zero_iff (hcfg : cfg.spreadPips.isFinite = true) (hsig : sig.isFinite = true) :
    (∀ d ∈ (simulateTradeDivided cfg sig).divisors, d ≠ 0) ↔ ¬ sig.TargetWithoutRisk cfg := by
  have hentry := isFinite_adjustedEntry hcfg hsig
  have hstop : sig.stopLoss.isFinite = true := by
    rw [Signal.isFinite, Bool.and_eq_true, Bool.and_eq_true] at hsig
    exact hsig.1.2
  have hzero := sub_eq_zero_iff hentry hstop
  constructor
  · rintro hsafe ⟨htarget, hrisk⟩
    exact hsafe _ (mem_divisors.mpr (Or.inr (Or.inr ⟨rfl, Or.inl htarget⟩))) (hzero.mpr hrisk)
  · rintro hsafe d hd rfl
    rcases mem_divisors.mp hd with h | h | ⟨h, htarget | hbehind⟩
    · exact absurd (F64.fin.inj h) (by norm_num)
    · exact absurd (F64.fin.inj h) (by norm_num)
    · exact hsafe ⟨htarget, hzero.mp h.symm⟩
    · obtain ⟨q, hq⟩ := F64.isFinite_iff.mp hentry
      rw [Signal.StopBehind, hzero.mp h.symm, ite_self, hq, F64.fin_lt_fin] at hbehind
      exact lt_irrefl q hbehind

theorem div_noRisk {entry distance : ℚ} (h : 0 < distance) :
    F64.fin distance / (F64.fin entry - .fin entry) = .inf false := by
  rw [F64.sub_fin, sub_self, F64.div_fin_zero, F64.scaleInf, if_neg h.ne',
    decide_eq_false h.le.not_gt]
  rfl

private theorem buyExit_noRisk {entry : ℚ} {target : Option ℚ} (hstop : sig.stopLoss = .fin entry)
    (htarget : sig.takeProfit.head? = target.map F64.fin) :
    (buyExit (.fin entry) sig).rr =
      if (Position.mk true entry entry target).targetAhead = true then .inf false else 0 := by
  have hopen : ¬ F64.fin entry < .fin entry := by
    rw [F64.fin_lt_fin]
    exact lt_irrefl entry
  unfold buyExit
  simp only [hstop, if_neg hopen]
  rcases targets_at htarget with ⟨hnone, rfl⟩ | ⟨tp, rest, hsome, rfl⟩
  · rw [hnone]
    rfl
  · rw [hsome]
    by_cases hahead : entry < tp
    · simp only [F64.fin_lt_fin, if_pos hahead, F64.sub_fin tp, div_noRisk (sub_pos.mpr hahead)]
      exact (if_pos (decide_eq_true hahead)).symm
    · simp only [F64.fin_lt_fin, if_neg hahead]
      exact (if_neg (mt of_decide_eq_true hahead)).symm

private theorem sellExit_noRisk {entry : ℚ} {target : Option ℚ} (hstop : sig.stopLoss = .fin entry)
    (htarget : sig.takeProfit.head? = target.map F64.fin) :
    (sellExit (.fin entry) sig).rr =
      if (Position.mk false entry entry target).targetAhead = true then .inf false else 0 := by
  have hopen : ¬ F64.fin entry < .fin entry := by
    rw [F64.fin_lt_fin]
    exact lt_irrefl entry
  unfold sellExit
  simp only [hstop, if_neg hopen]
  rcases targets_at htarget with ⟨hnone, rfl⟩ | ⟨tp, rest, hsome, rfl⟩
  · rw [hnone]
    rfl
  · rw [hsome]
    by_cases hahead : tp < entry
    · simp only [F64.fin_lt_fin, if_pos hahead, F64.sub_fin _ tp, div_noRisk (sub_pos.mpr hahead)]
      exact (if_pos (decide_eq_true hahead)).symm
    · simp only [F64.fin_lt_fin, if_neg hahead]
      exact (if_neg (mt of_decide_eq_true hahead)).symm

private theorem rr_noRisk {p : Position} (hp : sig.At cfg p) (hrisk : p.stop = p.entry) :
    (simulateTrade cfg sig).rrAchieved =
      (if p.targetAhead = true then .inf false else 0) * cfg.defaultRR / .fin 2 := by
  obtain ⟨buys, entry, stop, target⟩ := p
  obtain ⟨hbuys, hentry, hstop, htarget⟩ := hp
  obtain rfl : stop = entry := hrisk
  by_cases hbuy : sig.action = "BUY"
  · obtain rfl : buys = true := hbuys.trans (decide_eq_true hbuy)
    simp only [simulateTrade, hentry, if_pos hbuy, buyExit_noRisk hstop htarget]
  · obtain rfl : buys = false := hbuys.trans (decide_eq_false hbuy)
    simp only [simulateTrade, hentry, if_neg hbuy, sellExit_noRisk hstop htarget]

private theorem isFinite_rr_iff (hcfg : cfg.Finite) (hsig : sig.isFinite = true) :
    (simulateTrade cfg sig).rrAchieved.isFinite = true ↔ ¬ sig.TargetWithoutRisk cfg := by
  by_cases hrisk : sig.stopLoss = adjustedEntry cfg sig
  · obtain ⟨p, hp⟩ := Signal.exists_at hcfg.spread hsig
    obtain ⟨factor, hfactor⟩ := F64.isFinite_iff.mp hcfg.rr
    have hsame : p.stop = p.entry := by
      rw [hp.stop, hp.entry] at hrisk
      exact F64.fin.inj hrisk
    rw [rr_noRisk hp hsame, Signal.TargetWithoutRisk, and_iff_left hrisk, targetAhead_iff hp, hfactor]
    by_cases hahead : p.targetAhead = true
    · have hspecial : (F64.inf false * F64.fin factor / F64.fin 2).isFinite = false := by
        show (F64.div (F64.scaleInf false factor) (F64.fin 2)).isFinite = false
        unfold F64.scaleInf
        split <;> rfl
      rw [if_pos hahead, hspecial]
      exact ⟨fun h => absurd h Bool.false_ne_true, fun h => absurd hahead h⟩
    · rw [if_neg hahead]
      refine ⟨fun _ => hahead, fun _ => ?_⟩
      rw [F64.zero_def, F64.mul_fin, F64.div_fin two_ne_zero]
      rfl
  · obtain ⟨p, factor, -, -, -, htrade⟩ := (Signal.Sound.mk hsig hrisk).simulated hcfg
    rw [htrade]
    exact ⟨fun _ h => hrisk h.2, fun _ => rfl⟩

end Safe

/-- The simulator divides by zero for the signals that reach a target without any risk, and for these
only. -/
theorem dividesSafely_iff {env : RunEnv} {s : Simulator} {signals : List Signal}
    (hcfg : s.cfg.Finite) (hperm : (env.sortByTimestamp signals).Perm signals)
    (hfinite : ∀ sig ∈ signals, sig.isFinite = true) :
    DividesSafely s.cfg signals (s.run env signals).1 ↔
      ∀ sig ∈ signals, ¬ sig.TargetWithoutRisk s.cfg := by
  constructor
  · exact fun h sig hsig => (divisors_ne_zero_iff hcfg.spread (hfinite sig hsig)).mp (h.divisors sig hsig)
  · intro h
    have htrades : ∀ t ∈ (s.run env signals).1.trades, t.rrAchieved.isFinite = true := by
      rw [run_trades, List.forall_mem_map]
      intro sig hsig
      have hmem := hperm.mem_iff.mp hsig
      exact (isFinite_rr_iff hcfg (hfinite sig hmem)).mpr (h sig hmem)
    refine ⟨fun sig hsig => (divisors_ne_zero_iff hcfg.spread (hfinite sig hsig)).mpr (h sig hsig),
      htrades, ?_⟩
    rw [run_equityCurve]
    rw [run_trades] at htrades
    exact isFinite_equityFrom htrades rfl

/-- A spread of one. -/
def wideSpread : Config := { defaultConfig with spreadPips := .fin 10000 }

/-- A buy whose stop is at its entry with that spread, and a target above it. -/
def coincidentSignal : Signal :=
  ⟨4, "EURUSD", "BUY", "LIMIT", .fin 1, .fin 2, [.fin 3], 0, "demo", 80⟩

theorem coincident_stop_divides_by_zero :
    coincidentSignal.isFinite = true ∧ wideSpread.Finite ∧
      ¬ DividesSafely wideSpread [coincidentSignal]
        ((newSimulator wideSpread).run plainEnv [coincidentSignal]).1 := by
  refine ⟨rfl, ⟨rfl, rfl⟩, fun h => ?_⟩
  have hfinite := h.trades _ (List.mem_singleton_self _)
  exact absurd hfinite (by decide +kernel)

/-- The stop of the first signal is its entry, and it has no target. -/
theorem dividesSafely_iff_longSignal :
    DividesSafely wideSpread [{ coincidentSignal with takeProfit := [] }, shortSignal, longSignal]
      ((newSimulator wideSpread).run plainEnv
        [{ coincidentSignal with takeProfit := [] }, shortSignal, longSignal]).1 := by
  refine (dividesSafely_iff (s := newSimulator wideSpread) ⟨rfl, rfl⟩ (List.Perm.refl _) ?_).mpr ?_
  · decide +kernel
  · refine List.forall_mem_cons.mpr ⟨?_, List.forall_mem_cons.mpr
      ⟨fun h => absurd h.2 (by decide +kernel), List.forall_mem_singleton.mpr
        fun h => absurd h.2 (by decide +kernel)⟩⟩
    rintro ⟨⟨tp, htarget, -⟩, -⟩
    cases htarget

end SphereFx.Backtester
