import SphereFx.Base.Check
import SphereFx.Base.Owned
import SphereFx.Api.BacktestRace
import SphereFx.Api.Models

/-!
# Reading a run back

`get_backtest_status` with the response schema. The schema's `result` is a `BacktestResult` with
required fields, and the task stores three shapes of dictionaries none of which has them.

How pydantic reads a text as an integer, as a decimal, and a value as a time, is a parameter.
-/

namespace SphereFx.Api

open Live (WriteOutcome)

/-- The texts and times pydantic takes. -/
structure LaxTexts where
  int : String → Option Int
  decimal : String → Option ℚ
  time : Json → Option Nat

namespace LaxTexts

variable (texts : LaxTexts)

/-- A value pydantic takes for an `int` field. -/
def laxInt : Json → Option Int
  | .int n => some n
  | .bool b => some (if b then 1 else 0)
  | .dec q => if q.den = 1 then some q.num else none
  | .str s => texts.int s
  | _ => none

/-- A value pydantic takes for a `Decimal` field. -/
def laxDecimal : Json → Option ℚ
  | .int n => some n
  | .dec q => some q
  | .str s => texts.decimal s
  | _ => none

/-- A `Decimal` with `max_digits` and `decimal_places`. -/
def digits (maxDigits places : Nat) (value : Json) : Option ℚ :=
  (texts.laxDecimal value).filter fun q =>
    (q * 10 ^ places).den = 1 ∧ |q| < 10 ^ (maxDigits - places)

end LaxTexts

structure BacktestResult where
  runId : Int
  totalSignals : Int
  winCount : Int
  lossCount : Int
  winRate : ℚ
  totalRr : ℚ
  profitFactor : ℚ
  maxDrawdown : ℚ
  sharpeRatio : ℚ
  equityCurve : List ℚ
  trades : List (List (String × Json))
  startedAt : Nat
  finishedAt : Option Nat

structure BacktestStatus where
  runId : Nat
  status : RunStatus
  progress : Option Int
  result : Option BacktestResult

/-- A field that may be left out. -/
def defaulting {α : Type} (fields : List (String × Json)) (key : String) (default : α)
    (read : Json → Option α) : Option α :=
  match Json.lookup fields key with
  | none => some default
  | some value => read value

/-- A required field. -/
def requiring {α : Type} (fields : List (String × Json)) (key : String) (read : Json → Option α) :
    Option α :=
  (Json.lookup fields key).bind read

/-- An optional value, which null passes. -/
def orNull {α : Type} (read : Json → Option α) : Json → Option (Option α)
  | .null => some none
  | value => (read value).map some

namespace LaxTexts

variable (texts : LaxTexts)

/-- The schema `BacktestResult`. -/
def backtestResult (fields : List (String × Json)) : Option BacktestResult := do
  return {
    runId := ← requiring fields "run_id" texts.laxInt
    totalSignals := ← requiring fields "total_signals" texts.laxInt
    winCount := ← requiring fields "win_count" texts.laxInt
    lossCount := ← requiring fields "loss_count" texts.laxInt
    winRate := ← requiring fields "win_rate" (texts.digits 5 2)
    totalRr := ← requiring fields "total_rr" (texts.digits 12 4)
    profitFactor := ← requiring fields "profit_factor" (texts.digits 6 4)
    maxDrawdown := ← requiring fields "max_drawdown" (texts.digits 12 4)
    sharpeRatio := ← requiring fields "sharpe_ratio" (texts.digits 6 4)
    equityCurve := ← defaulting fields "equity_curve" [] fun value =>
      value.slice?.bind (List.mapM texts.laxDecimal)
    trades := ← defaulting fields "trades" [] fun value =>
      value.slice?.bind (List.mapM Json.object?)
    startedAt := ← requiring fields "started_at" texts.time
    finishedAt := ← defaulting fields "finished_at" none (orNull texts.time) }

/-- The schema `BacktestStatus` on the arguments of `get_backtest_status`. -/
def backtestStatus (run : BacktestRun) : Except ApiError BacktestStatus :=
  let progress := match run.result with
    | some (field :: rest) => (Json.lookup (field :: rest) "progress").getD (.int 100)
    | _ => .int 0
  let read := do
    let progress ← (orNull texts.laxInt progress).filter fun progress =>
      progress.all fun progress => 0 ≤ progress ∧ progress ≤ 100
    let result ← match run.result with
      | none => some none
      | some fields => (texts.backtestResult fields).map some
    return ⟨run.id, run.status, progress, result⟩
  match read with
  | none => .error (.unhandled "ValidationError")
  | some status => .ok status

def getBacktestStatus (user : Nat) (runId : Int) (runs : Table BacktestRun BacktestRun.id) :
    Except ApiError BacktestStatus := do
  let run ← orNotFound (← scalarOneOrNone (runs.query BacktestRun.userId user runId))
    ("Backtest run " ++ toString runId ++ " not found")
  texts.backtestStatus run

end LaxTexts

/-! ### Runs of a backtest -/

namespace RaceState

/-- The owner reads the run back: the stored status, and a progress in range. -/
def ReadBack (texts : LaxTexts) (s : RaceState) : Prop :=
  ∀ runs : Table BacktestRun BacktestRun.id, s.row ∈ runs.rows →
    ∃ status, texts.getBacktestStatus s.row.userId s.row.id runs = .ok status ∧
      status.status = s.row.status ∧ ∃ progress, status.progress = some progress ∧
        0 ≤ progress ∧ progress ≤ 100

end RaceState

end SphereFx.Api
