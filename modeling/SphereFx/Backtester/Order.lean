import Mathlib.Data.List.Sort
import SphereFx.Backtester.Equity

/-!
# The order in which signals are submitted

`Run` sorts the signals by their times with a sort that need not be stable. Counts and sums over the
trades do not see the order at all. The curve and what is computed from it depend on the order of the
sort alone, which is unique when all times differ.
-/

namespace SphereFx.Backtester

/-- What `sort.Slice` promises about these signals: a permutation with no pair the wrong way round. -/
structure RunEnv.Sorts (env : RunEnv) (signals : List Signal) : Prop where
  perm : (env.sortByTimestamp signals).Perm signals
  ordered : (env.sortByTimestamp signals).Pairwise fun a b => ¬ b.timestamp < a.timestamp

/-- The results do not differ in a count or a sum over the trades. -/
structure SameTotals (r r' : SimulationResult) : Prop where
  totalSignals : r'.totalSignals = r.totalSignals
  winCount : r'.winCount = r.winCount
  lossCount : r'.lossCount = r.lossCount
  winRate : r'.winRate = r.winRate
  totalRR : r'.totalRR = r.totalRR
  profitFactor : r'.profitFactor = r.profitFactor

/-- The results do not differ in the sequence of the trades and what follows from it. -/
structure SameSequence (r r' : SimulationResult) : Prop where
  trades : r'.trades = r.trades
  equityCurve : r'.equityCurve = r.equityCurve
  maxDrawdown : r'.maxDrawdown = r.maxDrawdown
  sharpeRatio : r'.sharpeRatio = r.sharpeRatio

/-! ### Sums over the trades -/

/-- The running total after one more trade. -/
def settle (cumRR : F64) (trade : Trade) : F64 :=
  if trade.outcome = .stillOpen then cumRR else cumRR + trade.rrAchieved

private theorem getLastD_equityFrom (trades : List Trade) (cumRR : F64) :
    (equityFrom cumRR trades).getLastD cumRR = trades.foldl settle cumRR := by
  induction trades generalizing cumRR with
  | nil => rfl
  | cons trade rest ih =>
      rw [equityFrom, List.getLastD_cons, List.foldl_cons]
      exact ih _

private theorem settle_right_comm (cumRR : F64) (t t' : Trade) :
    settle (settle cumRR t) t' = settle (settle cumRR t') t := by
  unfold settle
  by_cases ht : t.outcome = .stillOpen <;> by_cases ht' : t'.outcome = .stillOpen
  · simp only [if_pos ht, if_pos ht']
  · simp only [if_pos ht, if_neg ht']
  · simp only [if_neg ht, if_pos ht']
  · simp only [if_neg ht, if_neg ht']
    exact F64.add_right_comm _ _ _

private theorem grossSums_perm {trades trades' : List Trade} (h : trades'.Perm trades) :
    grossSums trades' = grossSums trades := by
  apply h.foldl_eq'
  intro t _ t' _ sums
  by_cases ht : 0 < t.rrAchieved <;> by_cases ht' : 0 < t'.rrAchieved
  · simp only [if_pos ht, if_pos ht', F64.add_right_comm sums.1]
  · simp only [if_pos ht, if_neg ht']
  · simp only [if_neg ht, if_pos ht']
  · simp only [if_neg ht, if_neg ht', F64.add_right_comm sums.2]

private theorem calculateProfitFactor_perm {trades trades' : List Trade} (h : trades'.Perm trades) :
    calculateProfitFactor trades' = calculateProfitFactor trades := by
  rw [calculateProfitFactor, calculateProfitFactor, grossSums_perm h]

section Runs

variable {env env' : RunEnv} {s s' : Simulator} {signals signals' : List Signal}

private theorem sameTotals_of_perm
    (h : (s'.run env' signals').1.trades.Perm (s.run env signals).1.trades) :
    SameTotals (s.run env signals).1 (s'.run env' signals').1 := by
  have htotal : (s'.run env' signals').1.totalSignals = (s.run env signals).1.totalSignals :=
    h.length_eq
  have hwins : (s'.run env' signals').1.winCount = (s.run env signals).1.winCount := by
    rw [run_winCount, run_winCount, h.countP_eq]
  refine ⟨htotal, hwins, ?_, ?_, ?_, ?_⟩
  · rw [run_lossCount, run_lossCount, h.countP_eq]
  · have hrate : ∀ (env : RunEnv) (s : Simulator) (signals : List Signal),
        (s.run env signals).1.winRate = F64.fin (s.run env signals).1.winCount /
          .fin (s.run env signals).1.totalSignals * .fin 100 := fun _ _ _ => rfl
    rw [hrate, hrate, hwins, htotal]
  · have hsum : ∀ (env : RunEnv) (s : Simulator) (signals : List Signal),
        (s.run env signals).1.totalRR = (s.run env signals).1.trades.foldl settle 0 := by
      intro env s signals
      rw [run_totalRR, run_equityCurve, getLastD_equityFrom, run_trades]
    rw [hsum, hsum]
    exact h.foldl_eq' (fun t _ t' _ cumRR => settle_right_comm cumRR t t') 0
  · exact calculateProfitFactor_perm h

private theorem sameSequence_of_trades
    (h : (s'.run env' signals').1.trades = (s.run env signals).1.trades) :
    SameSequence (s.run env signals).1 (s'.run env' signals').1 := by
  have hcurve : (s'.run env' signals').1.equityCurve = (s.run env signals).1.equityCurve := by
    rw [run_equityCurve, run_equityCurve, ← run_trades env', ← run_trades env, h]
  exact ⟨h, hcurve, congrArg calculateMaxDrawdown hcurve, congrArg calculateSharpeRatio hcurve⟩

private theorem sorted_unique (hperm : signals'.Perm signals) (hsort : env.Sorts signals)
    (hsort' : env'.Sorts signals') (hdistinct : (signals.map Signal.timestamp).Nodup) :
    env'.sortByTimestamp signals' = env.sortByTimestamp signals := by
  refine List.Perm.eq_of_pairwise ?_ hsort'.ordered hsort.ordered
    (hsort'.perm.trans (hperm.trans hsort.perm.symm))
  intro a b ha hb hab hba
  have hmem : a ∈ signals := hperm.mem_iff.mp (hsort'.perm.mem_iff.mp ha)
  have hmem' : b ∈ signals := hsort.perm.mem_iff.mp hb
  exact List.inj_on_of_nodup_map hdistinct hmem hmem' (le_antisymm (not_lt.mp hab) (not_lt.mp hba))

/-- A backtest does not depend on the order of submission. -/
theorem order_irrelevant (hcfg : s'.cfg = s.cfg) (hperm : signals'.Perm signals)
    (hsort : env.Sorts signals) (hsort' : env'.Sorts signals') :
    SameTotals (s.run env signals).1 (s'.run env' signals').1 ∧
      ((signals.map Signal.timestamp).Nodup →
        SameSequence (s.run env signals).1 (s'.run env' signals').1) := by
  constructor
  · apply sameTotals_of_perm
    rw [run_trades, run_trades, hcfg]
    exact (hsort'.perm.trans (hperm.trans hsort.perm.symm)).map _
  · intro hdistinct
    apply sameSequence_of_trades
    rw [run_trades, run_trades, hcfg, sorted_unique hperm hsort hsort' hdistinct]

end Runs

/-- A sort by insertion keeps the promise. -/
def insertionEnv : RunEnv :=
  ⟨fun signals => signals.insertionSort fun a b => a.timestamp ≤ b.timestamp, 0, 1⟩

theorem insertionEnv_sorts (signals : List Signal) : insertionEnv.Sorts signals := by
  refine ⟨List.perm_insertionSort _ signals, ?_⟩
  have : Std.Total fun a b : Signal => a.timestamp ≤ b.timestamp := ⟨fun a b => le_total _ _⟩
  have : IsTrans Signal fun a b => a.timestamp ≤ b.timestamp := ⟨fun a b c => le_trans⟩
  exact (List.pairwise_insertionSort (fun a b : Signal => a.timestamp ≤ b.timestamp) signals).imp
    not_lt.mpr

theorem order_irrelevant_swapped :
    SameTotals ((newSimulator defaultConfig).run insertionEnv [shortSignal, longSignal]).1
        ((newSimulator defaultConfig).run insertionEnv [longSignal, shortSignal]).1 ∧
      SameSequence ((newSimulator defaultConfig).run insertionEnv [shortSignal, longSignal]).1
        ((newSimulator defaultConfig).run insertionEnv [longSignal, shortSignal]).1 := by
  have hsame := order_irrelevant (s := newSimulator defaultConfig) rfl
    (List.Perm.swap shortSignal longSignal []) (insertionEnv_sorts _) (insertionEnv_sorts _)
  exact ⟨hsame.1, hsame.2 (by decide)⟩

end SphereFx.Backtester
