import SphereFx.Backtester.Balance
import Mathlib.Algebra.Order.BigOperators.Group.List

/-!
# What a wider spread does to a run

A wider spread moves the entry of a buy up and that of a sell down. A buy loses by it. A sell that
reaches its target is booked with the wrong sign, so it gains as long as it still reaches the target.
-/

namespace SphereFx.Backtester

/-- A buy or a sell whose stop and first target lie strictly on either side of its entry price. -/
structure Signal.Straddles (sig : Signal) : Prop where
  side : sig.action = "BUY" ∨ sig.action = "SELL"
  finite : sig.isFinite = true
  stop : if sig.action = "BUY" then sig.stopLoss < sig.entryPrice else sig.entryPrice < sig.stopLoss
  target : ∀ tp ∈ sig.takeProfit.head?,
    if sig.action = "BUY" then sig.entryPrice < tp else tp < sig.entryPrice

/-- The same positive factor and two finite spreads, the second at least as wide. -/
structure Widens (cfg cfg' : Config) : Prop where
  factor : cfg'.defaultRR = cfg.defaultRR
  finite : cfg.Finite
  positive : 0 < cfg.defaultRR
  finite' : cfg'.spreadPips.isFinite = true
  nonneg : 0 ≤ cfg.spreadPips
  wider : cfg.spreadPips ≤ cfg'.spreadPips

/-- A sell that reaches its target, and with the wider spread reaches it still or is stopped with less
than it lost at the target. -/
def Signal.GainsFromSpread (cfg cfg' : Config) (sig : Signal) : Prop :=
  sig.action ≠ "BUY" ∧ ∃ tp, sig.takeProfit.head? = some tp ∧ tp < adjustedEntry cfg sig ∧
    adjustedEntry cfg' sig < adjustedEntry cfg sig ∧
      (tp < adjustedEntry cfg' sig ∨
        sig.stopLoss - adjustedEntry cfg sig < adjustedEntry cfg sig - tp)

/-- No trade and no total is better with the second configuration. -/
structure SpreadCosts (cfg cfg' : Config) (signals : List Signal) (r r' : SimulationResult) : Prop where
  trades : ∀ sig ∈ signals,
    (simulateTrade cfg' sig).rrAchieved ≤ (simulateTrade cfg sig).rrAchieved
  total : r'.totalRR ≤ r.totalRR

/-! ### Two entries -/

section Positions

variable {entry entry' stop tp : ℚ} {target : Option ℚ}

theorem Position.rr_noTarget (p : Position) (h : p.stopBehind = true) (hnone : p.target = none) :
    p.rr = -1 := by
  have hahead : p.targetAhead = false := by rw [targetAhead, hnone, Option.any_none]
  rw [rr, hahead, if_neg Bool.false_ne_true, if_pos h]

theorem Position.rr_buy (hstop : stop < entry) : (Position.mk true entry stop (some tp)).rr =
    if entry < tp then (tp - entry) / (entry - stop) else -1 := by
  have hbehind : (Position.mk true entry stop (some tp)).stopBehind = true := decide_eq_true hstop
  rw [rr, if_pos hbehind]
  exact if_congr decide_eq_true_iff rfl rfl

theorem Position.rr_sell (hstop : entry < stop) : (Position.mk false entry stop (some tp)).rr =
    if tp < entry then -((entry - tp) / (stop - entry)) else -1 := by
  have hbehind : (Position.mk false entry stop (some tp)).stopBehind = true := decide_eq_true hstop
  rw [rr, if_pos hbehind, ← div_neg, neg_sub]
  exact if_congr decide_eq_true_iff rfl rfl

/-- A buy achieves less from a higher entry. -/
theorem Position.buy_rr_le (hstop : stop < entry) (hentry : entry ≤ entry') :
    (Position.mk true entry' stop target).rr ≤ (Position.mk true entry stop target).rr := by
  have hstop' : stop < entry' := hstop.trans_le hentry
  cases target with
  | none =>
      rw [rr_noTarget ⟨true, _, _, none⟩ (decide_eq_true hstop) rfl,
        rr_noTarget ⟨true, _, _, none⟩ (decide_eq_true hstop') rfl]
  | some tp =>
      rw [rr_buy hstop, rr_buy hstop']
      by_cases hahead' : entry' < tp
      · have hahead : entry < tp := hentry.trans_lt hahead'
        rw [if_pos hahead', if_pos hahead]
        apply div_le_div₀
        · exact sub_nonneg.mpr hahead.le
        · exact sub_le_sub_left hentry tp
        · exact sub_pos.mpr hstop
        · exact sub_le_sub_right hentry stop
      · rw [if_neg hahead']
        split
        · rename_i hahead
          have hpos := div_pos (sub_pos.mpr hahead) (sub_pos.mpr hstop)
          linarith
        · exact le_rfl

theorem Position.sell_rr_lt (hstop : entry < stop) (hahead : tp < entry') (hentry : entry' < entry) :
    (entry' - tp) / (stop - entry') < (entry - tp) / (stop - entry) := by
  have hrisk : 0 < stop - entry := sub_pos.mpr hstop
  apply div_lt_div₀ (sub_lt_sub_right hentry tp)
  · exact sub_le_sub_left hentry.le stop
  · exact (sub_pos.mpr (hahead.trans hentry)).le
  · exact hrisk

theorem Position.sell_rr_le_iff (hstop : entry < stop) (hentry : entry' ≤ entry) :
    (Position.mk false entry' stop target).rr ≤ (Position.mk false entry stop target).rr ↔
      ¬ ∃ tp, target = some tp ∧ tp < entry ∧ entry' < entry ∧
        (tp < entry' ∨ stop - entry < entry - tp) := by
  have hstop' : entry' < stop := hentry.trans_lt hstop
  cases target with
  | none =>
      rw [rr_noTarget ⟨false, _, _, none⟩ (decide_eq_true hstop) rfl,
        rr_noTarget ⟨false, _, _, none⟩ (decide_eq_true hstop') rfl]
      exact ⟨fun _ ⟨_, h, _⟩ => (by cases h), fun _ => le_rfl⟩
  | some tp =>
      rw [rr_sell hstop, rr_sell hstop']
      simp only [Option.some.injEq, exists_eq_left']
      by_cases hahead : tp < entry
      · by_cases hahead' : tp < entry'
        · rw [if_pos hahead', if_pos hahead, neg_le_neg_iff]
          constructor
          · rintro hle ⟨-, hlt, -⟩
            exact absurd hle (sell_rr_lt hstop hahead' hlt).not_ge
          · intro hsame
            have heq : entry = entry' := le_antisymm
              (not_lt.mp fun hlt => hsame ⟨hahead, hlt, Or.inl hahead'⟩) hentry
            rw [heq]
        · have hlt : entry' < entry := (not_lt.mp hahead').trans_lt hahead
          rw [if_neg hahead', if_pos hahead, neg_le_neg_iff, div_le_one (sub_pos.mpr hstop)]
          constructor
          · rintro hle ⟨-, -, hreaches | hless⟩
            · exact hahead' hreaches
            · exact absurd hle hless.not_ge
          · exact fun hnone => not_lt.mp fun hless => hnone ⟨hahead, hlt, Or.inr hless⟩
      · have hahead' : ¬ tp < entry' := fun h => hahead (h.trans_le hentry)
        rw [if_neg hahead', if_neg hahead]
        exact ⟨fun _ h => hahead h.1, fun _ => le_rfl⟩

end Positions

/-! ### Two configurations -/

section Trades

variable {cfg cfg' : Config} {sig : Signal}

theorem Widens.finite_right (h : Widens cfg cfg') : cfg'.Finite := by
  refine ⟨?_, h.finite'⟩
  rw [h.factor]
  exact h.finite.rr

theorem Widens.nonneg_right (h : Widens cfg cfg') : 0 ≤ cfg'.spreadPips := by
  obtain ⟨spread, hspread⟩ := F64.isFinite_iff.mp h.finite.spread
  obtain ⟨spread', hspread'⟩ := F64.isFinite_iff.mp h.finite'
  have hnonneg := h.nonneg
  have hwider := h.wider
  rw [hspread, F64.zero_def, F64.fin_le_fin] at hnonneg
  rw [hspread, hspread', F64.fin_le_fin] at hwider
  rw [hspread', F64.zero_def, F64.fin_le_fin]
  exact hnonneg.trans hwider

/-- The entry of a position under a spread. -/
def spreadEntry (buys : Bool) (entry spread : ℚ) : ℚ :=
  if buys then entry + spread / 10000 else entry - spread / 10000

/-- The position of a signal under every finite spread. -/
theorem Signal.Straddles.at (h : sig.Straddles) : ∃ buys entry stop target,
    buys = decide (sig.action = "BUY") ∧ (if buys = true then stop < entry else entry < stop) ∧
      ∀ {cfg : Config} {spread : ℚ}, cfg.spreadPips = .fin spread →
        sig.At cfg ⟨buys, spreadEntry buys entry spread, stop, target⟩ := by
  have hfinite := h.finite
  rw [Signal.isFinite, Bool.and_eq_true, Bool.and_eq_true] at hfinite
  obtain ⟨⟨hentry, hstop⟩, htargets⟩ := hfinite
  obtain ⟨entry, hentry⟩ := F64.isFinite_iff.mp hentry
  obtain ⟨stop, hstop⟩ := F64.isFinite_iff.mp hstop
  obtain ⟨target, htarget⟩ := exists_target htargets
  have hbehind := h.stop
  rw [hentry, hstop] at hbehind
  simp only [F64.fin_lt_fin] at hbehind
  refine ⟨decide (sig.action = "BUY"), entry, stop, target, rfl, ?_, fun {cfg spread} hspread => ?_⟩
  · simpa only [decide_eq_true_eq] using hbehind
  · refine ⟨rfl, ?_, hstop, htarget⟩
    rw [adjustedEntry, hspread, hentry, F64.div_fin (by norm_num), spreadEntry,
      apply_ite F64.fin]
    simp only [decide_eq_true_eq, F64.add_fin, F64.sub_fin]

theorem stopBehind_spreadEntry {buys : Bool} {entry stop spread : ℚ}
    (hstop : if buys = true then stop < entry else entry < stop) (hspread : 0 ≤ spread) :
    if buys = true then stop < spreadEntry buys entry spread
      else spreadEntry buys entry spread < stop := by
  have hpips : 0 ≤ spread / 10000 := by positivity
  unfold spreadEntry
  cases buys with
  | true =>
      simp only [if_true] at hstop ⊢
      linarith
  | false =>
      simp only [Bool.false_eq_true, if_false] at hstop ⊢
      linarith

theorem ne_of_stopBehind {buys : Bool} {entry stop : ℚ}
    (h : if buys = true then stop < entry else entry < stop) : entry ≠ stop := by
  cases buys with
  | true =>
      rw [if_pos rfl] at h
      exact h.ne'
  | false =>
      rw [if_neg Bool.false_ne_true] at h
      exact h.ne

private theorem gainsFromSpread_iff {p p' : Position} (hp : sig.At cfg p) (hp' : sig.At cfg' p') :
    sig.GainsFromSpread cfg cfg' ↔ p.buys = false ∧ ∃ tp, p.target = some tp ∧ tp < p.entry ∧
      p'.entry < p.entry ∧ (tp < p'.entry ∨ p.stop - p.entry < p.entry - tp) := by
  rw [Signal.GainsFromSpread, hp.entry, hp'.entry, hp.stop, hp.target, hp.buys,
    decide_eq_false_iff_not]
  apply and_congr_right
  intro _
  constructor
  · rintro ⟨_, htp, h⟩
    obtain ⟨tp, htarget, rfl⟩ := Option.map_eq_some_iff.mp htp
    simp only [F64.sub_fin, F64.fin_lt_fin] at h
    exact ⟨tp, htarget, h⟩
  · rintro ⟨tp, htarget, h⟩
    refine ⟨.fin tp, by rw [htarget, Option.map_some], ?_⟩
    simpa only [F64.sub_fin, F64.fin_lt_fin] using h

/-- The trade of a signal is better with the wider spread exactly when the signal gains from it. -/
theorem Signal.Straddles.rr_le_iff (h : sig.Straddles) (hcfg : Widens cfg cfg') :
    (simulateTrade cfg' sig).rrAchieved ≤ (simulateTrade cfg sig).rrAchieved ↔
      ¬ sig.GainsFromSpread cfg cfg' := by
  obtain ⟨buys, entry, stop, target, hbuys, hstop, hat⟩ := h.at
  obtain ⟨factor, hfactor⟩ := F64.isFinite_iff.mp hcfg.finite.rr
  obtain ⟨spread, hspread⟩ := F64.isFinite_iff.mp hcfg.finite.spread
  obtain ⟨spread', hspread'⟩ := F64.isFinite_iff.mp hcfg.finite'
  have hpositive := hcfg.positive
  have hnonneg := hcfg.nonneg
  have hwider := hcfg.wider
  rw [hfactor, F64.zero_def, F64.fin_lt_fin] at hpositive
  rw [hspread, F64.zero_def, F64.fin_le_fin] at hnonneg
  rw [hspread, hspread', F64.fin_le_fin] at hwider
  have hbehind := stopBehind_spreadEntry hstop hnonneg
  have hbehind' := stopBehind_spreadEntry hstop (hnonneg.trans hwider)
  rw [simulateTrade_at (hat hspread) hfactor (ne_of_stopBehind hbehind),
    simulateTrade_at (hat hspread') (hcfg.factor.trans hfactor) (ne_of_stopBehind hbehind'),
    F64.fin_le_fin, div_le_div_iff_of_pos_right two_pos, mul_le_mul_iff_of_pos_right hpositive,
    gainsFromSpread_iff (hat hspread) (hat hspread')]
  have hpips : spread / 10000 ≤ spread' / 10000 := by linarith
  cases buys with
  | true =>
      have hentry : spreadEntry true entry spread ≤ spreadEntry true entry spread' :=
        add_le_add_right hpips entry
      exact iff_of_true (Position.buy_rr_le hbehind hentry) fun h => Bool.noConfusion h.1
  | false =>
      have hentry : spreadEntry false entry spread' ≤ spreadEntry false entry spread :=
        sub_le_sub_left hpips entry
      rw [Position.sell_rr_le_iff hbehind hentry, eq_self_iff_true, true_and]

theorem Signal.Straddles.sound (h : sig.Straddles) (hcfg : cfg.Finite) (hnonneg : 0 ≤ cfg.spreadPips) :
    sig.Sound cfg := by
  obtain ⟨buys, entry, stop, target, -, hstop, hat⟩ := h.at
  obtain ⟨spread, hspread⟩ := F64.isFinite_iff.mp hcfg.spread
  rw [hspread, F64.zero_def, F64.fin_le_fin] at hnonneg
  refine ⟨h.finite, ?_⟩
  rw [(hat hspread).entry, (hat hspread).stop]
  exact fun heq => ne_of_stopBehind (stopBehind_spreadEntry hstop hnonneg) (F64.fin.inj heq.symm)

end Trades

/-! ### Two runs -/

section Runs

variable {env env' : RunEnv} {s s' : Simulator} {signals : List Signal}

theorem run_totalRR_sum (hperm : (env.sortByTimestamp signals).Perm signals)
    (hfinite : ∀ sig ∈ signals, (simulateTrade s.cfg sig).rrAchieved.isFinite = true) :
    (s.run env signals).1.totalRR =
      .fin (signals.map fun sig => (simulateTrade s.cfg sig).rrAchieved.toRat).sum := by
  rw [run_totalRR_fin (achieved_fin fun sig hsig => hfinite sig (hperm.mem_iff.mp hsig)),
    (hperm.map _).sum_eq]

/-- A wider spread costs a run exactly when none of its signals gains from it. -/
theorem spread_costs_iff (hcfg : Widens s.cfg s'.cfg)
    (hsort : (env.sortByTimestamp signals).Perm signals)
    (hsort' : (env'.sortByTimestamp signals).Perm signals)
    (hsides : ∀ sig ∈ signals, sig.Straddles) :
    SpreadCosts s.cfg s'.cfg signals (s.run env signals).1 (s'.run env' signals).1 ↔
      ∀ sig ∈ signals, ¬ sig.GainsFromSpread s.cfg s'.cfg := by
  constructor
  · exact fun h sig hsig => ((hsides sig hsig).rr_le_iff hcfg).mp (h.trades sig hsig)
  · intro hnone
    have htrades : ∀ sig ∈ signals,
        (simulateTrade s'.cfg sig).rrAchieved ≤ (simulateTrade s.cfg sig).rrAchieved :=
      fun sig hsig => ((hsides sig hsig).rr_le_iff hcfg).mpr (hnone sig hsig)
    have hfinite : ∀ sig ∈ signals, (simulateTrade s.cfg sig).rrAchieved.isFinite = true :=
      fun sig hsig => ((hsides sig hsig).sound hcfg.finite hcfg.nonneg).isFinite_rr hcfg.finite
    have hfinite' : ∀ sig ∈ signals, (simulateTrade s'.cfg sig).rrAchieved.isFinite = true :=
      fun sig hsig => ((hsides sig hsig).sound hcfg.finite_right hcfg.nonneg_right).isFinite_rr
        hcfg.finite_right
    refine ⟨htrades, ?_⟩
    rw [run_totalRR_sum hsort hfinite, run_totalRR_sum hsort' hfinite', F64.fin_le_fin]
    apply List.sum_le_sum
    intro sig hsig
    rw [← F64.fin_le_fin, F64.fin_toRat (hfinite sig hsig), F64.fin_toRat (hfinite' sig hsig)]
    exact htrades sig hsig

end Runs

/-- The default settings with a spread of three pips. -/
def wideConfig : Config := ⟨.fin 2, .fin 3, "sequential"⟩

theorem widens_wideConfig : Widens defaultConfig wideConfig := by
  refine ⟨rfl, ⟨rfl, rfl⟩, ?_, rfl, ?_, ?_⟩
  · decide +kernel
  · decide +kernel
  · decide +kernel

/-- A sell whose target is met with the default spread, and not with the wider one. -/
def narrowSignal : Signal :=
  ⟨6, "EURUSD", "SELL", "LIMIT", .fin (11 / 10), .fin (112 / 100), [.fin (10998 / 10000)], 1, "demo",
    80⟩

private theorem straddles_signals :
    ∀ sig ∈ [shortSignal, longSignal, narrowSignal], sig.Straddles := by
  have hside : ∀ sig ∈ [shortSignal, longSignal, narrowSignal],
      sig.action = "BUY" ∨ sig.action = "SELL" := by
    decide
  have hstop : ∀ sig ∈ [shortSignal, longSignal, narrowSignal], sig.isFinite = true ∧
      if sig.action = "BUY" then sig.stopLoss < sig.entryPrice else sig.entryPrice < sig.stopLoss := by
    decide +kernel
  have htarget : ∀ sig ∈ [shortSignal, longSignal, narrowSignal], ∀ tp ∈ sig.takeProfit.head?,
      if sig.action = "BUY" then sig.entryPrice < tp else tp < sig.entryPrice := by
    decide +kernel
  exact fun sig hsig =>
    ⟨hside sig hsig, (hstop sig hsig).1, (hstop sig hsig).2, htarget sig hsig⟩

/-- The buy and that sell pay for the spread. -/
theorem spread_costs_iff_longSignal :
    SpreadCosts defaultConfig wideConfig [longSignal, narrowSignal]
      ((newSimulator defaultConfig).run plainEnv [longSignal, narrowSignal]).1
      ((newSimulator wideConfig).run plainEnv [longSignal, narrowSignal]).1 := by
  refine (@spread_costs_iff plainEnv plainEnv (newSimulator defaultConfig) (newSimulator wideConfig)
    [longSignal, narrowSignal] widens_wideConfig (List.Perm.refl _) (List.Perm.refl _)
    (List.forall_mem_cons.mp straddles_signals).2).mpr ?_
  refine List.forall_mem_cons.mpr ⟨fun h => h.1 rfl, List.forall_mem_singleton.mpr ?_⟩
  rintro ⟨-, tp, htarget, -, -, hgains⟩
  obtain rfl := Option.some.inj htarget
  revert hgains
  decide +kernel

/-- Twice the spread makes the sell's trade and the total of its run better. -/
theorem wider_spread_pays :
    Widens defaultConfig wideConfig ∧ shortSignal.Straddles ∧
      ¬ SpreadCosts defaultConfig wideConfig [shortSignal]
        ((newSimulator defaultConfig).run plainEnv [shortSignal]).1
        ((newSimulator wideConfig).run plainEnv [shortSignal]).1 := by
  refine ⟨widens_wideConfig, straddles_signals shortSignal List.mem_cons_self, ?_⟩
  rintro ⟨htrades, -⟩
  have hle := htrades shortSignal (List.mem_singleton_self _)
  exact absurd hle (by decide +kernel)

end SphereFx.Backtester
