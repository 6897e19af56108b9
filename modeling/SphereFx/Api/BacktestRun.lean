import SphereFx.Base.Json
import SphereFx.Backtester.Server

/-!
# The background task of a backtest

`execute_backtest` with the client wrapper `run_backtest`. The wrapper never asks the backtester: its
module does not import `json`, and it swallows the exception. The task takes the missing stream for one
that has ended and stores a fixed result.

The progress of every line is committed, and only the first is stored: it is a new dictionary, which
the later lines change in place, so that the session sees no change.
-/

namespace SphereFx.Api

open Backtester (BacktestLogLine)

inductive RunStatus where
  | pending
  | running
  | done
  | failed
  | cancelled
  deriving DecidableEq, Repr

/-- A row of `backtest_runs`. The result is a dictionary or NULL. -/
structure BacktestRun where
  id : Nat
  userId : Nat
  status : RunStatus
  config : Json
  result : Option (List (String × Json))
  finishedAt : Option Nat

/-! ### The column changes of its writers -/

/-- The result stored when the stream has ended. -/
def placeholderResult (signalIds : List Int) (logs : List String) : List (String × Json) :=
  [("total_signals", .int signalIds.length), ("win_rate", .dec (684 / 10)),
    ("total_rr", .dec (1428 / 10)), ("profit_factor", .dec (214 / 100)),
    ("max_drawdown", .dec (-184 / 10)), ("sharpe_ratio", .dec (122 / 100)),
    ("equity_curve", .arr [.int 0, .dec (5 / 10), .dec (12 / 10), .dec (21 / 10), .dec (18 / 10),
      .dec (25 / 10), .dec 3]),
    ("logs", .arr (logs.map .str))]

namespace BacktestRun

/-- The row that `start_backtest` commits. -/
def created (id userId : Nat) (config : Json) : BacktestRun :=
  ⟨id, userId, .pending, config, none, none⟩

def started (row : BacktestRun) : BacktestRun := { row with status := .running }

def progressed (progress : Int) (row : BacktestRun) : BacktestRun :=
  { row with result := some [("progress", .int progress)] }

def finished (signalIds : List Int) (logs : List String) (time : Nat) (row : BacktestRun) :
    BacktestRun :=
  { row with
    status := .done
    result := some (placeholderResult signalIds logs)
    finishedAt := some time }

def broken (cause : String) (row : BacktestRun) : BacktestRun :=
  { row with status := .failed, result := some [("error", .str cause)] }

def cancelled (row : BacktestRun) : BacktestRun := { row with status := .cancelled }

end BacktestRun

/-! ### The client wrapper -/

/-- What the backtester answers to the call: an error, or a stream of lines that ends or raises. -/
inductive StreamReply where
  | callFails (cause : String)
  | stream (lines : List BacktestLogLine) (error : Option String)

inductive CommitPoint where
  | running
  | progress
  | done
  | failed
  deriving DecidableEq, Repr

/-- Everything outside the task: what setting up the client raises, the reply for the ids and the
config, the commits the database accepts and the time of the event loop. -/
structure BacktestEnv where
  initError : Option String
  reply : List Int → Json → StreamReply
  accepts : CommitPoint → Bool
  loopTime : Nat

/-- The names that `backtest_grpc.py` binds. -/
def grpcModuleNames : List String :=
  ["grpc", "Optional", "AsyncIterator", "backtester_pb2", "backtester_pb2_grpc", "settings",
    "_backtester_channel", "_backtester_stub", "init_backtester_client", "close_backtester_client",
    "run_backtest"]

/-- How a function of the module reads a global name that is not one of Python's own. -/
def globalName (name : String) : Except String Unit :=
  if name ∈ grpcModuleNames then .ok () else .error ("name '" ++ name ++ "' is not defined")

/-- The constructor of the generated message, which has the fields of `backtester.proto`. -/
def requestMessage (keywords : List String) : Except String Unit :=
  match keywords.find? fun keyword => keyword ∉ ["signals", "config_json"] with
  | some keyword => .error ("Protocol message BacktestRequest has no \"" ++ keyword ++ "\" field.")
  | none => .ok ()

/-- The request as `run_backtest` builds it: the constructor and `json.dumps` are global names. -/
def buildRequest : Except String Unit := do
  globalName "backtester_pb2"
  globalName "json"
  requestMessage ["signal_ids", "config_json"]

/-- `run_backtest`. Every exception of the request and of the call becomes `None`. -/
def runBacktest (env : BacktestEnv) (signalIds : List Int) (config : Json) :
    Except String (Option (List BacktestLogLine × Option String)) :=
  match env.initError with
  | some cause => .error cause
  | none =>
      match buildRequest with
      | .error _ => .ok none
      | .ok () =>
          match env.reply signalIds config with
          | .callFails _ => .ok none
          | .stream lines error => .ok (some (lines, error))

/-- No stream is ever handed out. -/
theorem runBacktest_eq (env : BacktestEnv) (signalIds : List Int) (config : Json) :
    runBacktest env signalIds config =
      match env.initError with
      | some cause => .error cause
      | none => .ok none := by
  have hbuild : buildRequest = .error "name 'json' is not defined" := rfl
  simp only [runBacktest, hbuild]

/-! ### The task -/

/-- `fields[key] = value`. -/
def setField (fields : List (String × Json)) (key : String) (value : Json) : List (String × Json) :=
  if fields.any (fun field => field.1 = key) then
    fields.map fun field => if field.1 = key then (key, value) else field
  else fields ++ [(key, value)]

/-- The task's copy of the result after a line, and whether the session has something to write. -/
def nextResult (result : Option (List (String × Json))) (progress : Int) :
    List (String × Json) × Bool :=
  match result with
  | some (field :: rest) => (setField (field :: rest) "progress" (.int progress), false)
  | _ => ([("progress", .int progress)], true)

/-- The stored row, the result as the task's object has it, and the messages so far. -/
structure TaskSession where
  stored : BacktestRun
  result : Option (List (String × Json))
  logs : List String

/-- One line of the stream. A refused commit leaves the task with the row as it is stored. -/
def onLine (env : BacktestEnv) (session : TaskSession) (line : BacktestLogLine) :
    Except BacktestRun TaskSession :=
  let (result, changed) := nextResult session.result line.progress
  let logs := session.logs ++ [line.message]
  if changed = false then .ok ⟨session.stored, some result, logs⟩
  else if env.accepts .progress then .ok ⟨session.stored.progressed line.progress, some result, logs⟩
  else .error session.stored

def settle (env : BacktestEnv) (point : CommitPoint) (change : BacktestRun → BacktestRun)
    (stored : BacktestRun) : BacktestRun :=
  if env.accepts point then change stored else stored

end SphereFx.Api
