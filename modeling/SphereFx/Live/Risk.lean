import SphereFx.Base.Check
import SphereFx.Live.Job
import SphereFx.Live.Positions

/-!
# The worker's risk checks

`RiskManager.ValidateJob` reads an untyped payload by type assertions, which turn a missing or
mistyped field into a zero value, and asks the database four questions. What the tables answer and
which queries fail is an argument here, so that every theorem is about every database state.
-/

namespace SphereFx.Live

/-- The part of `Config` the risk checks read. -/
structure Config where
  defaultMaxLot : F64
  defaultMinLot : F64
  defaultMaxDailyDrawdown : F64
  defaultMinRR : F64
  defaultMaxPositions : Int
  deriving DecidableEq, Repr

/-- What the tables hold about one account, with NULL columns as `none`. -/
structure AccountData where
  balanceCache : Option (Option ℚ)
  maxDailyLoss : Option (Option ℚ)
  realizedPl : List (Option ℚ)
  positions : List LivePosition

/-- The error text of each query that fails. -/
structure QueryFailures where
  balance : Option String
  riskSettings : Option String
  dailyPl : Option String
  positions : Option String
  deriving DecidableEq, Repr

def QueryFailures.none : QueryFailures := ⟨.none, .none, .none, .none⟩

/-- `QueryRow(..).Scan(..)`. -/
inductive ScanResult (α : Type) where
  | row (value : α)
  | noRows
  | failed (cause : String)
  deriving DecidableEq, Repr

def queryRow {α : Type} (failure : Option String) (row : Option α) : ScanResult α :=
  match failure, row with
  | some cause, _ => .failed cause
  | .none, some value => .row value
  | .none, .none => .noRows

/-- `ISNULL(column, 0)` read as a `float64`. -/
def isNull (column : Option ℚ) : F64 := .fin (column.getD 0)

/-- `SUM(column)`, which leaves out NULLs. -/
def sumColumn (rows : List (Option ℚ)) : ℚ := (rows.map fun column => column.getD 0).sum

inductive RiskError where
  | invalidPayload (cause : String)
  | lotBelowMinimum (lot minimum : F64)
  | lotAboveMaximum (lot maximum : F64)
  | accountNotFound (accountId : Nat)
  | balanceQuery (cause : String)
  | nonPositiveBalance (balance : F64)
  | riskQuery (cause : String)
  | nonPositiveLimit (limit : F64)
  | dailyLossLimit (current potential limit : F64)
  | positionsQuery (cause : String)
  | maxPositions (maximum : Int)
  | rrBelowMinimum (rr minimum : F64)
  | zeroPrice
  | stopNotBelowEntry
  | stopNotAboveEntry
  deriving DecidableEq, Repr

def RiskError.text : RiskError → String
  | .invalidPayload cause => "invalid payload JSON: " ++ cause
  | .lotBelowMinimum lot minimum =>
      "lot size " ++ lot.text2 ++ " below minimum " ++ minimum.text2
  | .lotAboveMaximum lot maximum =>
      "lot size " ++ lot.text2 ++ " exceeds maximum " ++ maximum.text2
  | .accountNotFound accountId => "account " ++ toString accountId ++ " not found"
  | .balanceQuery cause => "failed to fetch account balance: " ++ cause
  | .nonPositiveBalance balance => "account balance is zero or negative: " ++ balance.text2
  | .riskQuery cause => "failed to fetch risk settings: " ++ cause
  | .nonPositiveLimit limit => "max allowed daily loss is zero or negative: " ++ limit.text2
  | .dailyLossLimit current potential limit =>
      "daily loss limit would be exceeded: current loss " ++ current.text2 ++
        ", potential loss " ++ potential.text2 ++ ", limit " ++ limit.text2
  | .positionsQuery cause => "failed to get open positions: " ++ cause
  | .maxPositions maximum => "max positions (" ++ toString maximum ++ ") reached"
  | .rrBelowMinimum rr minimum => "RR ratio " ++ rr.text2 ++ " below minimum " ++ minimum.text2
  | .zeroPrice => "entry price and stop loss must be non-zero"
  | .stopNotBelowEntry => "stop loss must be below entry for BUY orders"
  | .stopNotAboveEntry => "stop loss must be above entry for SELL orders"

/-! ### The payload -/

/-- The local variables of `ValidateJob` that the checks use. -/
structure RiskInput where
  symbol : String
  action : String
  entryPrice : F64
  stopLoss : F64
  takeProfit : List F64
  lotSize : F64
  deriving DecidableEq, Repr

/-- `v, _ := payload[key].(float64)`. -/
def floatField (payload : List (String × Json)) (key : String) : F64 :=
  (Json.index payload key).float64?.getD 0

/-- `v, _ := payload[key].(string)`. -/
def stringField (payload : List (String × Json)) (key : String) : String :=
  (Json.index payload key).string?.getD ""

/-- The loop over `payload["take_profit"]`, which keeps the elements that are numbers. -/
def takeProfitNumbers (payload : List (String × Json)) : List F64 :=
  ((Json.index payload "take_profit").slice?.getD []).filterMap Json.float64?

def riskInput (payload : List (String × Json)) : RiskInput where
  symbol := stringField payload "symbol"
  action := stringField payload "action"
  entryPrice := floatField payload "entry_price"
  stopLoss := floatField payload "stop_loss"
  takeProfit := takeProfitNumbers payload
  lotSize := floatField payload "lot_size"

/-! ### The checks -/

def accountBalance (accountId : Nat) (result : ScanResult F64) : Except RiskError F64 :=
  match result with
  | .row balance => .ok balance
  | .noRows => .error (.accountNotFound accountId)
  | .failed cause => .error (.balanceQuery cause)

def maxDailyLossPercent (cfg : Config) (result : ScanResult F64) : Except RiskError F64 :=
  match result with
  | .row percent => .ok (if percent ≤ 0 then cfg.defaultMaxDailyDrawdown else percent)
  | .noRows => .ok cfg.defaultMaxDailyDrawdown
  | .failed cause => .error (.riskQuery cause)

/-- A failed query is logged and counts as no profit or loss. -/
def todayPl (result : ScanResult F64) : F64 :=
  match result with
  | .row pl => pl
  | .noRows => 0
  | .failed _ => 0

def potentialLoss (lotSize entryPrice stopLoss : F64) : F64 :=
  if 0 < lotSize ∧ 0 < entryPrice ∧ 0 < stopLoss then
    let loss := lotSize * .fin 100000 * (entryPrice - stopLoss).abs
    if 0 < loss ∧ loss < .fin (1 / 100) then .fin (1 / 100) else loss
  else lotSize * .fin 10

def checkDailyDrawdown (cfg : Config) (data : AccountData) (failures : QueryFailures)
    (accountId : Nat) (lotSize entryPrice stopLoss : F64) : Except RiskError Unit := do
  let balance ← accountBalance accountId
    (queryRow failures.balance (data.balanceCache.map isNull))
  refuseIf (balance ≤ 0) (.nonPositiveBalance balance)
  let percent ← maxDailyLossPercent cfg
    (queryRow failures.riskSettings (data.maxDailyLoss.map isNull))
  let maxAllowedLoss := balance * (percent / .fin 100)
  refuseIf (maxAllowedLoss ≤ 0) (.nonPositiveLimit maxAllowedLoss)
  let pl := todayPl (queryRow failures.dailyPl (some (.fin (sumColumn data.realizedPl))))
  let loss := potentialLoss lotSize entryPrice stopLoss
  refuseIf (pl - loss < -maxAllowedLoss) (.dailyLossLimit pl loss maxAllowedLoss)

def checkMaxPositions (cfg : Config) (data : AccountData) (failures : QueryFailures)
    (accountId : Nat) : Except RiskError Unit := do
  let positions ← (getOpenPositions failures.positions data.positions accountId).mapError
    RiskError.positionsQuery
  refuseIf (cfg.defaultMaxPositions ≤ positions.length) (.maxPositions cfg.defaultMaxPositions)

def checkMinRR (cfg : Config) (entry stopLoss : F64) (takeProfit : List F64) :
    Except RiskError Unit :=
  if entry.eq 0 || stopLoss.eq 0 then .ok ()
  else
    match takeProfit with
    | [] => .ok ()
    | tp :: _ =>
        let risk := (entry - stopLoss).abs
        if risk.eq 0 then .ok ()
        else
          let rr := (tp - entry).abs / risk
          refuseIf (rr < cfg.defaultMinRR) (.rrBelowMinimum rr cfg.defaultMinRR)

def checkStopSide (action : String) (entryPrice stopLoss : F64) : Except RiskError Unit := do
  refuseIf (entryPrice.eq 0 || stopLoss.eq 0) .zeroPrice
  refuseIf (action = "BUY" ∧ entryPrice ≤ stopLoss) .stopNotBelowEntry
  refuseIf (action = "SELL" ∧ stopLoss ≤ entryPrice) .stopNotAboveEntry

def validateInput (cfg : Config) (data : AccountData) (failures : QueryFailures) (accountId : Nat)
    (input : RiskInput) : Except RiskError Unit := do
  refuseIf (input.lotSize < cfg.defaultMinLot) (.lotBelowMinimum input.lotSize cfg.defaultMinLot)
  refuseIf (cfg.defaultMaxLot < input.lotSize) (.lotAboveMaximum input.lotSize cfg.defaultMaxLot)
  checkDailyDrawdown cfg data failures accountId input.lotSize input.entryPrice input.stopLoss
  checkMaxPositions cfg data failures accountId
  checkMinRR cfg input.entryPrice input.stopLoss input.takeProfit
  checkStopSide input.action input.entryPrice input.stopLoss

def validateJob (cfg : Config) (data : AccountData) (failures : QueryFailures) (job : LiveJob) :
    Except RiskError Unit := do
  let payload ← job.payload.unmarshalMap.mapError RiskError.invalidPayload
  validateInput cfg data failures job.accountId (riskInput payload)

/-! ### What an accepted job has passed -/

theorem validateJob_eq_ok {cfg : Config} {data : AccountData} {failures : QueryFailures}
    {job : LiveJob} {u : Unit} : validateJob cfg data failures job = .ok u ↔
      ∃ payload, job.payload.unmarshalMap = .ok payload ∧
        validateInput cfg data failures job.accountId (riskInput payload) = .ok u := by
  rw [validateJob, bind_eq_ok]
  simp only [mapError_eq_ok]

/-- What `validateInput` checks, one field for each check. -/
structure Accepted (cfg : Config) (data : AccountData) (failures : QueryFailures) (accountId : Nat)
    (input : RiskInput) : Prop where
  minLot : ¬ input.lotSize < cfg.defaultMinLot
  maxLot : ¬ cfg.defaultMaxLot < input.lotSize
  drawdown : checkDailyDrawdown cfg data failures accountId input.lotSize input.entryPrice
    input.stopLoss = .ok ()
  positions : checkMaxPositions cfg data failures accountId = .ok ()
  minRR : checkMinRR cfg input.entryPrice input.stopLoss input.takeProfit = .ok ()
  stopSide : checkStopSide input.action input.entryPrice input.stopLoss = .ok ()

theorem validateInput_eq_ok {cfg : Config} {data : AccountData} {failures : QueryFailures}
    {accountId : Nat} {input : RiskInput} {u : Unit} :
    validateInput cfg data failures accountId input = .ok u ↔
      Accepted cfg data failures accountId input := by
  simp only [validateInput, bind_eq_ok, refuseIf_eq_ok, exists_const]
  constructor
  · rintro ⟨hmin, hmax, ⟨⟩, hdrawdown, ⟨⟩, hpositions, ⟨⟩, hrr, hside⟩
    exact ⟨hmin, hmax, hdrawdown, hpositions, hrr, hside⟩
  · intro h
    exact ⟨h.minLot, h.maxLot, (), h.drawdown, (), h.positions, (), h.minRR, h.stopSide⟩

theorem checkStopSide_eq_ok {action : String} {entryPrice stopLoss : F64} {u : Unit} :
    checkStopSide action entryPrice stopLoss = .ok u ↔
      entryPrice.eq 0 = false ∧ stopLoss.eq 0 = false ∧
        (action = "BUY" → ¬ entryPrice ≤ stopLoss) ∧
        (action = "SELL" → ¬ stopLoss ≤ entryPrice) := by
  simp only [checkStopSide, bind_eq_ok, refuseIf_eq_ok, exists_const, Bool.or_eq_true, not_or,
    Bool.not_eq_true, not_and]
  exact and_assoc

/-- A limit of `checkDailyDrawdown` that the job stays within. -/
theorem checkDailyDrawdown_eq_ok {cfg : Config} {data : AccountData} {failures : QueryFailures}
    {accountId : Nat} {lotSize entryPrice stopLoss : F64} {u : Unit} :
    checkDailyDrawdown cfg data failures accountId lotSize entryPrice stopLoss = .ok u ↔
      ∃ balance percent,
        accountBalance accountId (queryRow failures.balance (data.balanceCache.map isNull)) =
          .ok balance ∧
        ¬ balance ≤ 0 ∧
        maxDailyLossPercent cfg
          (queryRow failures.riskSettings (data.maxDailyLoss.map isNull)) = .ok percent ∧
        ¬ balance * (percent / .fin 100) ≤ 0 ∧
        ¬ todayPl (queryRow failures.dailyPl (some (.fin (sumColumn data.realizedPl)))) -
          potentialLoss lotSize entryPrice stopLoss < -(balance * (percent / .fin 100)) := by
  simp only [checkDailyDrawdown, bind_eq_ok, refuseIf_eq_ok, exists_const]
  constructor
  · rintro ⟨balance, hbalance, hpos, percent, hpercent, hlimit, hloss⟩
    exact ⟨balance, percent, hbalance, hpos, hpercent, hlimit, hloss⟩
  · rintro ⟨balance, percent, hbalance, hpos, hpercent, hlimit, hloss⟩
    exact ⟨balance, hbalance, hpos, percent, hpercent, hlimit, hloss⟩

end SphereFx.Live
