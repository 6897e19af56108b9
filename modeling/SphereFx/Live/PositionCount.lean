import SphereFx.Live.PositionCap

/-!
# What the position check counts

`checkMaxPositions` takes the length of the list that `GetOpenPositions` returns. A row with a NULL in
a column that is scanned into a plain Go value is left out of that list, so it counts for nothing.
-/

namespace SphereFx.Live

/-- A row the query of `GetOpenPositions` selects. -/
def LivePosition.isOpen (accountId : Nat) (row : LivePosition) : Bool :=
  row.accountId = accountId && row.status = some "OPEN"

/-- None of the columns that are scanned into plain Go values is NULL, the status apart. -/
def LivePosition.isReadable (row : LivePosition) : Bool :=
  row.brokerPositionId.isSome && row.currentPrice.isSome && row.stopLoss.isSome &&
    row.remainingLots.isSome && row.pnl.isSome && row.openedAt.isSome

/-- The rows of an account whose status is `OPEN`. -/
def openCount (table : List LivePosition) (accountId : Nat) : Nat :=
  table.countP (LivePosition.isOpen accountId)

/-- Those of them that can be read. -/
def readableCount (table : List LivePosition) (accountId : Nat) : Nat :=
  table.countP fun row => row.isOpen accountId && row.isReadable

/-- The check rejects exactly when the account has its maximum of open positions. -/
def CountsOpen (cfg : Config) (data : AccountData) (failures : QueryFailures) (accountId : Nat) :
    Prop :=
  (∃ err, checkMaxPositions cfg data failures accountId = .error err) ↔
    cfg.defaultMaxPositions ≤ openCount data.positions accountId

/-! ### The rows that are read -/

theorem LivePosition.isSome_scan (row : LivePosition) :
    row.scan.isSome = (row.isReadable && row.status.isSome) := by
  obtain ⟨id, jobId, orderId, accountId, brokerPositionId, symbol, action, entryPrice, currentPrice,
    lotSize, stopLoss, takeProfit, remainingLots, status, pnl, openedAt, closedAt, closeReason⟩ := row
  cases brokerPositionId with
  | none => rfl
  | some brokerPosId =>
      cases currentPrice with
      | none => rfl
      | some currentPrice =>
          cases stopLoss with
          | none => rfl
          | some stopLoss =>
              cases remainingLots with
              | none => rfl
              | some remainingLots =>
                  cases status <;> cases pnl <;> cases openedAt <;> rfl

theorem LivePosition.isSome_scan_of_isOpen {accountId : Nat} {row : LivePosition}
    (h : row.isOpen accountId = true) : row.scan.isSome = row.isReadable := by
  rw [LivePosition.isOpen, Bool.and_eq_true, decide_eq_true_eq, decide_eq_true_eq] at h
  rw [LivePosition.isSome_scan, h.2, Option.isSome_some, Bool.and_true]

/-- The loop of `GetOpenPositions` keeps one position for each open row it can read. -/
theorem length_getOpenPositions {table : List LivePosition} {accountId : Nat}
    {positions : List Position} (h : getOpenPositions none table accountId = .ok positions) :
    positions.length = readableCount table accountId := by
  obtain rfl := Except.ok.inj h
  rw [List.length_filterMap_eq_countP, List.countP_filter, readableCount]
  apply List.countP_congr
  intro row _
  rw [Bool.and_comm]
  by_cases hopen : row.isOpen accountId = true
  · rw [LivePosition.isSome_scan_of_isOpen hopen]
    rfl
  · have hfalse : row.isOpen accountId = false := Bool.not_eq_true _ ▸ hopen
    rw [hfalse, Bool.false_and]
    have hquery : (decide (row.accountId = accountId) && decide (row.status = some "OPEN")) = false :=
      hfalse
    rw [hquery, Bool.false_and]

private theorem readableCount_le (table : List LivePosition) (accountId : Nat) :
    readableCount table accountId ≤ openCount table accountId := by
  apply List.countP_mono_left
  intro row _ h
  exact (Bool.and_eq_true _ _ ▸ h).1

theorem checkMaxPositions_eq_ok {cfg : Config} {data : AccountData} {failures : QueryFailures}
    {accountId : Nat} (hquery : failures.positions = none) :
    checkMaxPositions cfg data failures accountId = .ok () ↔
      ¬ cfg.defaultMaxPositions ≤ readableCount data.positions accountId := by
  rw [checkMaxPositions, bind_eq_ok, hquery]
  simp only [mapError_eq_ok, refuseIf_eq_ok]
  constructor
  · rintro ⟨positions, hpositions, hmax⟩
    rwa [length_getOpenPositions hpositions] at hmax
  · intro hmax
    refine ⟨_, rfl, ?_⟩
    rwa [length_getOpenPositions rfl]

/-- The check counts every open position exactly when the account is below its maximum or has its
maximum in rows that can be read. -/
theorem counts_open_iff (cfg : Config) (data : AccountData) (failures : QueryFailures)
    (accountId : Nat) (hquery : failures.positions = none) :
    CountsOpen cfg data failures accountId ↔
      (openCount data.positions accountId : Int) < cfg.defaultMaxPositions ∨
        cfg.defaultMaxPositions ≤ readableCount data.positions accountId := by
  have hle : readableCount data.positions accountId ≤ openCount data.positions accountId :=
    readableCount_le _ _
  have hrejects : (∃ err, checkMaxPositions cfg data failures accountId = .error err) ↔
      cfg.defaultMaxPositions ≤ readableCount data.positions accountId := by
    have hok := @checkMaxPositions_eq_ok cfg data failures accountId hquery
    cases hresult : checkMaxPositions cfg data failures accountId with
    | ok u =>
        rw [hresult] at hok
        exact iff_of_false (fun ⟨_, h⟩ => by cases h) (hok.mp rfl)
    | error err =>
        rw [hresult] at hok
        exact iff_of_true ⟨err, rfl⟩ (not_not.mp fun h => by cases hok.mpr h)
  rw [CountsOpen, hrejects]
  omega

/-- An open position that has no current price yet. -/
def unpricedPosition : LivePosition where
  id := 1
  jobId := 42
  orderId := 1
  accountId := 3
  brokerPositionId := some "1001"
  symbol := "EURUSD"
  action := "BUY"
  entryPrice := 11 / 10
  currentPrice := none
  lotSize := 1
  stopLoss := some (109 / 100)
  takeProfit := none
  remainingLots := some 1
  status := some "OPEN"
  pnl := none
  openedAt := some 5
  closedAt := none
  closeReason := none

def pricedPosition : LivePosition :=
  { unpricedPosition with currentPrice := some (11 / 10), pnl := some 0 }

def accountWith (positions : List LivePosition) : AccountData :=
  { plainAccount 100000 with positions := positions }

/-- The row that can be read fills a maximum of one beside one that cannot. -/
theorem counts_open_iff_pricedPosition :
    CountsOpen onePosition (accountWith [pricedPosition, { unpricedPosition with id := 2 }]) .none 3 :=
  (counts_open_iff onePosition (accountWith [pricedPosition, { unpricedPosition with id := 2 }]) .none
    3 rfl).mpr (Or.inr (by decide))

/-- One open row without a price is not counted against a maximum of one. -/
theorem unpriced_position_uncounted :
    (1 : Int) ≤ openCount [unpricedPosition] 3 ∧
      checkMaxPositions onePosition (accountWith [unpricedPosition]) .none 3 = .ok () ∧
        ¬ CountsOpen onePosition (accountWith [unpricedPosition]) .none 3 := by
  refine ⟨by decide, by decide, fun h => ?_⟩
  have hok : checkMaxPositions onePosition (accountWith [unpricedPosition]) .none 3 = .ok () := by
    with_unfolding_all decide
  have hreached : (1 : Int) ≤ openCount [unpricedPosition] 3 := by decide
  obtain ⟨err, herror⟩ := h.mpr hreached
  rw [hok] at herror
  cases herror

end SphereFx.Live
