import SphereFx.Base.Check
import SphereFx.Backtester.Simulator

/-!
# The gRPC service of the backtester

`RunBacktest` of `main.go`: it runs the simulation, streams the log lines and sends the result as a
last line, which it marshals only then. The stream is given by what each `Send` on it answers, and the
two calls of `encoding/json` by what they read and write.
-/

namespace SphereFx.Backtester

/-- A signal of the request; a timestamp that was not sent is the epoch. -/
structure PbSignal where
  id : Int
  symbol : String
  action : String
  orderType : String
  entryPrice : F64
  stopLoss : F64
  takeProfit : List F64
  timestamp : Option Int
  source : String
  confidence : Int

def PbSignal.toSignal (pbSig : PbSignal) : Signal where
  id := pbSig.id
  symbol := pbSig.symbol
  action := pbSig.action
  orderType := pbSig.orderType
  entryPrice := pbSig.entryPrice
  stopLoss := pbSig.stopLoss
  takeProfit := pbSig.takeProfit
  timestamp := pbSig.timestamp.getD 0
  source := pbSig.source
  confidence := pbSig.confidence

structure BacktestRequest where
  signals : List PbSignal
  configJson : String

structure BacktestLogLine where
  message : String
  level : String
  progress : Int
  deriving DecidableEq, Repr

def LogLine.toPb (line : LogLine) : BacktestLogLine := ⟨line.message, line.level, line.progress⟩

/-- The floats of a result in the order of its fields. -/
def SimulationResult.floats (result : SimulationResult) : List F64 :=
  [result.winRate, result.totalRR, result.profitFactor, result.maxDrawdown, result.sharpeRatio] ++
    result.equityCurve ++
    result.trades.flatMap fun trade => [trade.entryPrice, trade.exitPrice, trade.rrAchieved]

/-- What `encoding/json` does: whether a text unmarshals into a map, and how a result that can be
marshalled is written. -/
structure JsonCodec where
  unmarshalMap : String → Except String Unit
  encode : SimulationResult → String

/-- `json.Marshal`, which refuses the infinities and NaN. -/
def JsonCodec.marshal (codec : JsonCodec) (result : SimulationResult) : Except String String :=
  match result.floats.find? fun x => !x.isFinite with
  | some x => .error ("json: unsupported value: " ++ x.text2)
  | none => .ok (codec.encode result)

/-- The error of the `n`-th `stream.Send`, if it fails. -/
abbrev Sends := Nat → Option String

/-- Sends lines after those already sent, up to the first that fails. -/
def sendAll (sends : Sends) (sent : List BacktestLogLine) :
    List BacktestLogLine → List BacktestLogLine × Option String
  | [] => (sent, none)
  | line :: rest =>
      match sends sent.length with
      | some err => (sent, some err)
      | none => sendAll sends (sent ++ [line]) rest

def resultLine (message : String) : BacktestLogLine := ⟨message, "RESULT", 100⟩

/-- `RunBacktest`: the lines sent, the error returned and the simulator afterwards. -/
def runBacktest (codec : JsonCodec) (sends : Sends) (env : RunEnv) (sim : Simulator)
    (req : BacktestRequest) : (List BacktestLogLine × Option String) × Simulator :=
  if req.signals = [] then (([], some "no signals provided"), sim)
  else
    match if req.configJson = "" then .ok () else codec.unmarshalMap req.configJson with
    | .error cause => (([], some ("invalid config JSON: " ++ cause)), sim)
    | .ok () =>
        let (result, sim) := sim.run env (req.signals.map PbSignal.toSignal)
        match sendAll sends [] (result.logs.map LogLine.toPb) with
        | (sent, some err) => ((sent, some err), sim)
        | (sent, none) =>
            match codec.marshal result with
            | .error cause => ((sent, some ("failed to serialize result: " ++ cause)), sim)
            | .ok resultJSON => (sendAll sends sent [resultLine resultJSON], sim)

/-! ### Specifications -/

theorem sendAll_of_successful {sends : Sends} (h : ∀ n, sends n = none)
    (sent lines : List BacktestLogLine) : sendAll sends sent lines = (sent ++ lines, none) := by
  induction lines generalizing sent with
  | nil => rw [List.append_nil, sendAll]
  | cons line rest ih =>
      rw [sendAll, h]
      simp only
      rw [ih, List.append_assoc]
      rfl

/-- A result is marshalled exactly when all its floats are finite. -/
theorem marshal_eq_ok {codec : JsonCodec} {result : SimulationResult} {text : String} :
    codec.marshal result = .ok text ↔
      (∀ x ∈ result.floats, x.isFinite = true) ∧ text = codec.encode result := by
  unfold JsonCodec.marshal
  cases hfind : result.floats.find? fun x => !x.isFinite with
  | some x =>
      have hx : x.isFinite = false := by simpa using List.find?_some hfind
      constructor
      · intro h
        cases h
      · rintro ⟨h, -⟩
        rw [h x (List.mem_of_find?_eq_some hfind)] at hx
        cases hx
  | none =>
      rw [List.find?_eq_none] at hfind
      have hall : ∀ x ∈ result.floats, x.isFinite = true := by simpa using hfind
      exact ⟨fun h => ⟨hall, (Except.ok.inj h).symm⟩, fun h => congrArg Except.ok h.2.symm⟩

end SphereFx.Backtester
