import SphereFx.Base.Float

/-!
# The backtester's simulator

`simulator.go`: each signal is settled at once, at its first target or its stop, and the equity curve
adds up the risk-reward of the settled trades. Floats are exact, and what the clock and `sort.Slice`
bring to a run are arguments.
-/

namespace SphereFx.Backtester

/-- The part of the configuration that a run reads. -/
structure Config where
  defaultRR : F64
  spreadPips : F64
  defaultTPStrategy : String

structure Signal where
  id : Int
  symbol : String
  action : String
  orderType : String
  entryPrice : F64
  stopLoss : F64
  takeProfit : List F64
  timestamp : Int
  source : String
  confidence : Int

/-- `TP_HIT`, `SL_HIT` and `OPEN`. -/
inductive Outcome where
  | tpHit
  | slHit
  | stillOpen
  deriving DecidableEq, Repr

structure Trade where
  signalId : Int
  symbol : String
  action : String
  entryPrice : F64
  exitPrice : F64
  rrAchieved : F64
  outcome : Outcome
  deriving DecidableEq, Repr

structure LogLine where
  message : String
  level : String
  progress : Int
  deriving DecidableEq, Repr

structure SimulationResult where
  runId : Int
  totalSignals : Nat
  winCount : Nat
  lossCount : Nat
  winRate : F64
  totalRR : F64
  profitFactor : F64
  maxDrawdown : F64
  sharpeRatio : F64
  equityCurve : List F64
  trades : List Trade
  logs : List LogLine
  startedAt : Int
  finishedAt : Int

structure Simulator where
  cfg : Config
  cache : Int → Option SimulationResult
  runCounter : Int

def newSimulator (cfg : Config) : Simulator := ⟨cfg, fun _ => none, 0⟩

/-! ### One trade -/

/-- The entry with the spread on it. -/
def adjustedEntry (cfg : Config) (sig : Signal) : F64 :=
  let spreadAdj := cfg.spreadPips / .fin 10000
  if sig.action = "BUY" then sig.entryPrice + spreadAdj else sig.entryPrice - spreadAdj

/-- Where a trade ends: its exit price, its outcome and its unscaled risk-reward. -/
structure Exit where
  price : F64
  outcome : Outcome
  rr : F64

/-- The stop is hit; a positive risk-reward is turned round. -/
def stopExit (stopLoss rr : F64) : Exit := ⟨stopLoss, .slHit, if 0 < rr then -rr else rr⟩

def openExit (entry : F64) : Exit := ⟨entry, .stillOpen, 0⟩

def buyExit (entry : F64) (sig : Signal) : Exit :=
  let stopped :=
    if sig.stopLoss < entry then
      stopExit sig.stopLoss ((sig.stopLoss - entry) / (entry - sig.stopLoss))
    else openExit entry
  match sig.takeProfit with
  | tpPrice :: _ =>
      if entry < tpPrice then ⟨tpPrice, .tpHit, (tpPrice - entry) / (entry - sig.stopLoss)⟩
      else stopped
  | [] => stopped

def sellExit (entry : F64) (sig : Signal) : Exit :=
  let stopped :=
    if entry < sig.stopLoss then
      stopExit sig.stopLoss ((entry - sig.stopLoss) / (entry - sig.stopLoss))
    else openExit entry
  match sig.takeProfit with
  | tpPrice :: _ =>
      if tpPrice < entry then ⟨tpPrice, .tpHit, (entry - tpPrice) / (entry - sig.stopLoss)⟩
      else stopped
  | [] => stopped

def simulateTrade (cfg : Config) (sig : Signal) : Trade :=
  let entry := adjustedEntry cfg sig
  let ending := if sig.action = "BUY" then buyExit entry sig else sellExit entry sig
  { signalId := sig.id
    symbol := sig.symbol
    action := sig.action
    entryPrice := entry
    exitPrice := ending.price
    rrAchieved := ending.rr * cfg.defaultRR / .fin 2
    outcome := ending.outcome }

/-! ### The metrics -/

/-- The gross profit and the gross loss of `calculateProfitFactor`. -/
def grossSums (trades : List Trade) : F64 × F64 :=
  trades.foldl (fun sums t =>
    if 0 < t.rrAchieved then (sums.1 + t.rrAchieved, sums.2)
    else (sums.1, sums.2 + t.rrAchieved.abs)) (0, 0)

def calculateProfitFactor (trades : List Trade) : F64 :=
  let (grossProfit, grossLoss) := grossSums trades
  if F64.eq grossLoss 0 then .inf false else grossProfit / grossLoss

/-- The loop of `calculateMaxDrawdown`, from its drawdown and its peak. -/
def drawdownFrom : F64 → F64 → List F64 → F64
  | maxDD, _, [] => maxDD
  | maxDD, peak, v :: rest =>
      let peak := if peak < v then v else peak
      let dd := peak - v
      drawdownFrom (if maxDD < dd then dd else maxDD) peak rest

def calculateMaxDrawdown (equity : List F64) : F64 :=
  if equity.length < 2 then 0 else drawdownFrom 0 (equity.headD 0) equity

def sumFloats (values : List F64) : F64 := values.foldl (· + ·) 0

/-- The differences of neighbours. -/
def returnsOf (equity : List F64) : List F64 := List.zipWith (fun next now => next - now) equity.tail equity

def calculateSharpeRatio (equity : List F64) : F64 :=
  if equity.length < 2 then 0
  else
    let returns := returnsOf equity
    let mean := sumFloats returns / .fin returns.length
    let variance := sumFloats (returns.map fun r => (r - mean) * (r - mean)) / .fin returns.length
    let stdDev := variance.sqrt
    if F64.eq stdDev 0 then 0 else mean / stdDev

/-! ### A run -/

/-- The variables of the loop. -/
structure Book where
  trades : List Trade
  equityPoints : List F64
  cumRR : F64
  wins : Nat
  losses : Nat
  logs : List LogLine

/-- The line every tenth signal and the last one add. The percentage is the exact one, cut off; the
source cuts off a hundred times a rounded quotient, which may be one less (56 for 570 of 1000). -/
def progressLine (done total : Nat) (cumRR : F64) : LogLine where
  message := "Processed " ++ toString done ++ "/" ++ toString total ++ " signals ... RR: " ++
    cumRR.text2
  level := "INFO"
  progress := (done * 100 / total : Nat)

def Book.record (cfg : Config) (total : Nat) (book : Book) (sig : Signal) : Book :=
  let trade := simulateTrade cfg sig
  let cumRR := if trade.outcome = .stillOpen then book.cumRR else book.cumRR + trade.rrAchieved
  let done := book.trades.length + 1
  { trades := book.trades ++ [trade]
    equityPoints := book.equityPoints ++ [cumRR]
    cumRR := cumRR
    wins := if trade.outcome = .tpHit then book.wins + 1 else book.wins
    losses := if trade.outcome = .slHit then book.losses + 1 else book.losses
    logs :=
      if done % 10 = 0 ∨ done = total then book.logs ++ [progressLine done total cumRR]
      else book.logs }

/-- What the clock and `sort.Slice` bring to a run; times are in nanoseconds. -/
structure RunEnv where
  sortByTimestamp : List Signal → List Signal
  startedAt : Int
  finishedAt : Int

def startLines (cfg : Config) (runId : Int) (total : Nat) : List LogLine := [
  ⟨"Starting backtest run #" ++ toString runId ++ " with " ++ toString total ++ " signals", "INFO", 0⟩,
  ⟨"RR: " ++ cfg.defaultRR.text2 ++ ", Spread: " ++ cfg.spreadPips.text2 ++ " pips, TP Strategy: " ++
    cfg.defaultTPStrategy, "INFO", 0⟩]

def doneLine (env : RunEnv) (winRate totalRR : F64) : LogLine where
  message := "Backtest done in " ++
    (F64.fin (((env.finishedAt - env.startedAt : Int) : ℚ) / 10 ^ 9)).text2 ++ "s. Win Rate: " ++
    winRate.text2 ++ "%, Total RR: " ++ totalRR.text2
  level := "INFO"
  progress := 100

/-- The loop of `Run` over the sorted signals. -/
def runBook (cfg : Config) (runId : Int) (sorted : List Signal) : Book :=
  sorted.foldl (Book.record cfg sorted.length)
    ⟨[], [], 0, 0, 0, startLines cfg runId sorted.length⟩

def Simulator.run (env : RunEnv) (s : Simulator) (signals : List Signal) :
    SimulationResult × Simulator :=
  let runId := s.runCounter + 1
  let book := runBook s.cfg runId (env.sortByTimestamp signals)
  let totalSignals := book.trades.length
  let winRate := F64.fin book.wins / .fin totalSignals * .fin 100
  let result : SimulationResult := {
    runId := runId
    totalSignals := totalSignals
    winCount := book.wins
    lossCount := book.losses
    winRate := winRate
    totalRR := book.cumRR
    profitFactor := calculateProfitFactor book.trades
    maxDrawdown := calculateMaxDrawdown book.equityPoints
    sharpeRatio := calculateSharpeRatio book.equityPoints
    equityCurve := book.equityPoints
    trades := book.trades
    logs := book.logs ++ [doneLine env winRate book.cumRR]
    startedAt := env.startedAt
    finishedAt := env.finishedAt }
  (result, ⟨s.cfg, Function.update s.cache runId (some result), runId⟩)

def Simulator.getCachedResult (s : Simulator) (runId : Int) : Option SimulationResult := s.cache runId

end SphereFx.Backtester
