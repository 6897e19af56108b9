import SphereFx.Backtester.Balance
import SphereFx.Backtester.Metrics

/-!
# The drawdown from the start of a run

The equity curve of a run begins after its first trade, and the drawdown is the greatest fall of that
curve. What a run loses below its start counts only as far as the curve also falls that far from one
of its own points.
-/

namespace SphereFx.Backtester

/-- What the trades of these signals achieve, in this order. -/
def achieved (cfg : Config) (signals : List Signal) : List F64 :=
  signals.map fun sig => (simulateTrade cfg sig).rrAchieved

/-- The start and the running totals after each trade. -/
def totalsFromStart (rrs : List ℚ) : List ℚ := rrs.scanl (· + ·) 0

/-- The reported drawdown is the greatest fall of the totals, the start included. -/
structure CoversStart (rrs : List ℚ) (r : SimulationResult) : Prop where
  greatest : ∃ q, r.maxDrawdown = .fin q ∧ IsGreatest (Falls (totalsFromStart rrs)) q
  loss : ∃ total q, r.totalRR = .fin total ∧ r.maxDrawdown = .fin q ∧ -total ≤ q

/-- The first trade does not lose, or the totals after the trades fall somewhere at least as far as
their lowest lies below the start. -/
def FallsLater (rrs : List ℚ) : Prop :=
  (∀ r ∈ rrs.head?, 0 ≤ r) ∨
    ∃ d ∈ Falls (totalsFromStart rrs).tail, ∀ x ∈ (totalsFromStart rrs).tail, -x ≤ d

theorem totalsFromStart_eq (rrs : List ℚ) :
    totalsFromStart rrs = 0 :: (totalsFromStart rrs).tail := by
  cases rrs with
  | nil => rw [totalsFromStart, List.scanl_nil, List.tail_cons]
  | cons r rest => rw [totalsFromStart, List.scanl_cons, List.tail_cons]

private theorem fallsLater_iff {r : ℚ} {rest : List ℚ} :
    FallsLater (r :: rest) ↔ ∀ x ∈ (totalsFromStart (r :: rest)).tail,
      -x ≤ greatestFall (totalsFromStart (r :: rest)).tail := by
  have htail : (totalsFromStart (r :: rest)).tail = rest.scanl (· + ·) r := by
    rw [totalsFromStart, List.scanl_cons, List.tail_cons, zero_add]
  have hhead : ∃ more, rest.scanl (· + ·) r = r :: more := by
    cases rest with
    | nil => exact ⟨[], List.scanl_nil⟩
    | cons r' rest => exact ⟨_, List.scanl_cons⟩
  obtain ⟨more, hmore⟩ := hhead
  have hgreatest := isGreatest_greatestFall (List.cons_ne_nil r more)
  rw [FallsLater, htail, hmore]
  constructor
  · rintro (hfirst | ⟨d, hd, hlow⟩)
    · intro x hx
      have hfall : r - x ≤ greatestFall (r :: more) :=
        hgreatest.2 (mem_falls_cons.mpr (Or.inl ⟨x, hx, rfl⟩))
      have hr := hfirst r rfl
      linarith
    · exact fun x hx => (hlow x hx).trans (hgreatest.2 hd)
  · exact fun hlow => Or.inr ⟨_, hgreatest.1, hlow⟩

/-- The reported drawdown covers the start exactly when the first trade does not lose or the curve
falls as far again. -/
theorem coversStart_iff {env : RunEnv} {s : Simulator} {signals : List Signal} {rrs : List ℚ}
    (hne : signals ≠ []) (hperm : (env.sortByTimestamp signals).Perm signals)
    (hrrs : achieved s.cfg (env.sortByTimestamp signals) = rrs.map .fin) :
    CoversStart rrs (s.run env signals).1 ↔ FallsLater rrs := by
  have htrades : (s.run env signals).1.trades.map Trade.rrAchieved = rrs.map .fin := by
    rw [run_trades, List.map_map]
    exact hrrs
  have hbalanced := balanced_of_finite hne hperm.length_eq htrades
  obtain ⟨r, rest, rfl⟩ : ∃ r rest, rrs = r :: rest := by
    apply List.exists_cons_of_ne_nil
    rintro rfl
    have hnil : env.sortByTimestamp signals = [] := List.map_eq_nil_iff.mp hrrs
    rw [hnil] at hperm
    exact hne hperm.symm.eq_nil
  have hcurve : (s.run env signals).1.equityCurve =
      (totalsFromStart (r :: rest)).tail.map F64.fin := by
    have hstart := run_equityCurve_fin htrades
    rw [← totalsFromStart, totalsFromStart_eq, List.map_cons] at hstart
    exact (List.cons.inj hstart).2
  have hdrawdown : (s.run env signals).1.maxDrawdown =
      .fin (greatestFall (totalsFromStart (r :: rest)).tail) := by
    rw [← calculateMaxDrawdown_fin, ← hcurve]
    rfl
  have htail : (totalsFromStart (r :: rest)).tail ≠ [] := by
    intro hnil
    have hpos := List.length_pos_iff.mpr hne
    rw [← hbalanced.length, hcurve, hnil] at hpos
    exact absurd hpos (Nat.not_lt_zero 0)
  have hstart : IsGreatest (Falls (0 :: (totalsFromStart (r :: rest)).tail)) _ ↔ _ :=
    isGreatest_falls_cons_iff htail (isGreatest_greatestFall htail)
  rw [← totalsFromStart_eq] at hstart
  simp only [zero_sub] at hstart
  rw [fallsLater_iff, ← hstart]
  constructor
  · rintro ⟨⟨q, hq, hgreatest⟩, -⟩
    rw [F64.fin.inj (hdrawdown.symm.trans hq)]
    exact hgreatest
  · intro hgreatest
    refine ⟨⟨_, hdrawdown, hgreatest⟩, ?_⟩
    -- The last point of the curve is one of the totals.
    have hlast := List.mem_of_getLast? hbalanced.last
    rw [hcurve] at hlast
    obtain ⟨total, htotal, heq⟩ := List.mem_map.mp hlast
    exact ⟨total, _, heq.symm, hdrawdown, hstart.mp hgreatest total htotal⟩

/-- A buy of EURUSD at 1.1 with its stop at 1.09 and no target. -/
def stoppedSignal : Signal :=
  ⟨3, "EURUSD", "BUY", "LIMIT", .fin (11 / 10), .fin (109 / 100), [], 0, "demo", 80⟩

private theorem achieved_stoppedSignal : achieved defaultConfig [stoppedSignal] = [-1].map F64.fin := by
  decide +kernel

private theorem achieved_longSignal :
    achieved defaultConfig [longSignal, stoppedSignal] = [197 / 203, -1].map F64.fin := by
  decide +kernel

/-- After a win the same loss is covered. -/
theorem coversStart_iff_stoppedSignal :
    CoversStart [197 / 203, -1]
      ((newSimulator defaultConfig).run plainEnv [longSignal, stoppedSignal]).1 := by
  refine (@coversStart_iff plainEnv (newSimulator defaultConfig) [longSignal, stoppedSignal] _
    (List.cons_ne_nil _ _) (List.Perm.refl _) achieved_longSignal).mpr (Or.inl fun r hr => ?_)
  obtain rfl := Option.some.inj hr
  norm_num

/-- A single loss of one is reported as a drawdown of zero. -/
theorem first_loss_uncovered :
    achieved defaultConfig [stoppedSignal] = [-1].map F64.fin ∧
      ¬ CoversStart [-1] ((newSimulator defaultConfig).run plainEnv [stoppedSignal]).1 := by
  refine ⟨achieved_stoppedSignal, ?_⟩
  rintro ⟨⟨q, hq, hgreatest⟩, -⟩
  have hzero : ((newSimulator defaultConfig).run plainEnv [stoppedSignal]).1.maxDrawdown = .fin 0 :=
    rfl
  have hq0 : q = 0 := F64.fin.inj (hq.symm.trans hzero)
  have htotals : totalsFromStart [-1] = [0, -1] := by
    rw [totalsFromStart, List.scanl_cons, List.scanl_nil, zero_add]
  have hfall : (1 : ℚ) ∈ Falls (totalsFromStart [-1]) := by
    rw [htotals]
    exact mem_falls_cons.mpr (Or.inl ⟨-1, List.mem_cons_of_mem _ (List.mem_singleton_self _),
      by norm_num⟩)
  have hle := hgreatest.2 hfall
  rw [hq0] at hle
  exact absurd hle (by norm_num)

end SphereFx.Backtester
