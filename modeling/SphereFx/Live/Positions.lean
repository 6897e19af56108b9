import SphereFx.Base.Json

/-!
# `live_positions`

The table the position limit is counted on. Reading a row into the worker's `Position` fails when a
nullable column that is scanned into a plain Go value is NULL; such a row is logged and skipped.
-/

namespace SphereFx.Live

structure LivePosition where
  id : Nat
  jobId : Nat
  orderId : Nat
  accountId : Nat
  brokerPositionId : Option String
  symbol : String
  action : String
  entryPrice : ℚ
  currentPrice : Option ℚ
  lotSize : ℚ
  stopLoss : Option ℚ
  takeProfit : Option Json
  remainingLots : Option ℚ
  status : Option String
  pnl : Option ℚ
  openedAt : Option Nat
  closedAt : Option Nat
  closeReason : Option String

structure Position where
  id : Nat
  jobId : Nat
  orderId : Nat
  accountId : Nat
  brokerPosId : String
  symbol : String
  action : String
  entryPrice : F64
  currentPrice : F64
  lotSize : F64
  stopLoss : F64
  takeProfit : List F64
  remainingLots : F64
  status : String
  pnl : F64
  openedAt : Nat
  closedAt : Option Nat
  closeReason : String

/-- `json.Unmarshal` into a `[]float64`, where a null element leaves a zero. -/
def unmarshalFloats : Json → Option (List F64)
  | .arr items => items.mapM fun
      | .null => some 0
      | v => v.float64?
  | .null => some []
  | _ => none

/-- `rows.Scan` and what follows it in the loop of `GetOpenPositions`. -/
def LivePosition.scan (row : LivePosition) : Option Position := do
  let brokerPosId ← row.brokerPositionId
  let currentPrice ← row.currentPrice
  let stopLoss ← row.stopLoss
  let remainingLots ← row.remainingLots
  let status ← row.status
  let pnl ← row.pnl
  let openedAt ← row.openedAt
  return {
    id := row.id
    jobId := row.jobId
    orderId := row.orderId
    accountId := row.accountId
    brokerPosId := brokerPosId
    symbol := row.symbol
    action := row.action
    entryPrice := .fin row.entryPrice
    currentPrice := .fin currentPrice
    lotSize := .fin row.lotSize
    stopLoss := .fin stopLoss
    takeProfit := (row.takeProfit.bind unmarshalFloats).getD []
    remainingLots := .fin remainingLots
    status := status
    pnl := .fin pnl
    openedAt := openedAt
    closedAt := row.closedAt
    closeReason := row.closeReason.getD "" }

/-- `GetOpenPositions`, which fails only when the query does. -/
def getOpenPositions (failure : Option String) (table : List LivePosition) (accountId : Nat) :
    Except String (List Position) :=
  match failure with
  | some cause => .error ("query open positions: " ++ cause)
  | none =>
      .ok ((table.filter fun row => row.accountId = accountId && row.status = some "OPEN").filterMap
        LivePosition.scan)

def closePosition (table : List LivePosition) (positionId now : Nat) (closeReason : String) :
    List LivePosition :=
  table.map fun row =>
    if row.id = positionId then
      { row with status := some "CLOSED", closedAt := some now, closeReason := some closeReason }
    else row

@[simp] theorem closePosition_nil (positionId now : Nat) (closeReason : String) :
    closePosition [] positionId now closeReason = [] := rfl

end SphereFx.Live
