import SphereFx.Live.Bridge

/-!
# What an accepted order can be, and what it can lose

The worker and the bridge read the same payload by different rules. An accepted job has a lot size,
an entry price and a stop loss that are not zero, so all three are JSON numbers, and on a number the
two readings agree. The side of the stop loss is checked for the two actions the bridge lets through.
-/

namespace SphereFx.Live

theorem number_of_nonzero {payload : List (String × Json)} {key : String}
    (h : (floatField payload key).eq 0 = false) :
    ∃ q, q ≠ 0 ∧ floatField payload key = .fin q ∧ (Json.index payload key).number? = some q := by
  obtain ⟨q, hq, hnumber⟩ := @floatField_eq_fin payload key
  have hne : q ≠ 0 := by
    rintro rfl
    rw [hq] at h
    cases h
  exact ⟨q, hne, hq, hnumber hne⟩

private theorem number_of_minLot {payload : List (String × Json)} {key : String} {minLot : F64}
    (hmin : 0 < minLot) (h : ¬ floatField payload key < minLot) :
    ∃ q, minLot ≤ .fin q ∧ floatField payload key = .fin q ∧
      (Json.index payload key).number? = some q := by
  obtain ⟨q, hq, hnumber⟩ := @floatField_eq_fin payload key
  rw [hq] at h
  have hne : q ≠ 0 := by
    rintro rfl
    exact h hmin
  have hnan : minLot ≠ .nan := by
    rintro rfl
    exact F64.not_lt_nan _ hmin
  exact ⟨q, F64.le_of_not_lt (fun hfin => by cases hfin) hnan h, hq, hnumber hne⟩

theorem orElse_of_nonzero {q : ℚ} (h : q ≠ 0) (fallback : F64) :
    orElse (some (.fin q)) fallback = .fin q := by
  have hne : (F64.fin q).eq 0 = false := by
    rw [Bool.eq_false_iff]
    exact fun heq => h (F64.fin_eq_fin.mp heq)
  simp only [orElse, hne, Bool.false_eq_true, if_false]

/-- Every order that reaches MetaTrader respects the lot limits, is priced at the payload's entry
price and has its stop loss on the loss side. -/
theorem sent_order_is_limited (cfg : Config) (data : AccountData) (failures : QueryFailures)
    (job : LiveJob) (parseFloat : String → Option F64) (connected : Bool)
    (symbolInfo : Option SymbolInfo) (request : TradeRequest) (hmin : 0 < cfg.defaultMinLot)
    (hmax : cfg.defaultMaxLot ≠ .nan) (haccept : validateJob cfg data failures job = .ok ())
    (hsent : sentRequest parseFloat connected symbolInfo job.payload = some request) :
    cfg.defaultMinLot ≤ request.volume ∧ request.volume ≤ cfg.defaultMaxLot ∧
      request.volume ≤ .fin 100 ∧
      ∃ payload entry sl, job.payload.unmarshalMap = .ok payload ∧
        (Json.index payload "entry_price").number? = some entry ∧ request.price = .fin entry ∧
        request.sl = some (.fin sl) ∧ (request.type.side = .buy → sl < entry) ∧
        (request.type.side = .sell → entry < sl) := by
  obtain ⟨payload, hpayload, hinput⟩ := validateJob_eq_ok.mp haccept
  have haccepted := validateInput_eq_ok.mp hinput
  obtain ⟨payload', order, hpayload', horder, htrade⟩ := sentRequest_eq_some.mp hsent
  obtain rfl : payload = payload' := Except.ok.inj (hpayload.symm.trans hpayload')
  have hmatches := validateOrder_eq_some.mp horder
  obtain ⟨-, info, -, -, hrequest⟩ := tradeRequest_eq_ok.mp htrade
  -- lot, entry and stop are numbers, read alike on both sides
  obtain ⟨lot, hminLot, hlot, hlotNumber⟩ := number_of_minLot hmin haccepted.minLot
  obtain ⟨hentryNonzero, hstopNonzero, hbuy, hsell⟩ := checkStopSide_eq_ok.mp haccepted.stopSide
  obtain ⟨entry, hentryNe, hentry, hentryNumber⟩ := number_of_nonzero hentryNonzero
  obtain ⟨stop, _, hstop, hstopNumber⟩ := number_of_nonzero hstopNonzero
  have hlotSize : order.lotSize = .fin lot :=
    Option.some.inj (hmatches.lotSize.symm.trans (laxFloat_remarshal hlotNumber))
  have hentryPrice : order.entryPrice = some (.fin entry) :=
    Option.some.inj (hmatches.entryPrice.symm.trans (optionalFloat_remarshal hentryNumber))
  have hstopLoss : order.stopLoss = some (.fin stop) :=
    Option.some.inj (hmatches.stopLoss.symm.trans (optionalFloat_remarshal hstopNumber))
  have haction : stringField payload "action" = order.action.text := hmatches.action_text
  rw [hrequest]
  simp only [hlotSize, hstopLoss]
  refine ⟨hminLot, ?_, hlotSize ▸ hmatches.bounds.2, payload, entry, stop, hpayload, hentryNumber, ?_,
    rfl, ?_, ?_⟩
  · have h : ¬ cfg.defaultMaxLot < .fin lot := hlot ▸ haccepted.maxLot
    exact F64.le_of_not_lt hmax (fun hfin => by cases hfin) h
  · rw [hentryPrice, orElse_of_nonzero hentryNe]
  · intro hsideBuy
    have htext : stringField payload "action" = "BUY" := by
      rw [haction, hsideBuy]
      rfl
    have h : ¬ F64.fin entry ≤ .fin stop := hentry ▸ hstop ▸ hbuy htext
    exact not_le.mp fun hle => h (F64.fin_le_fin.mpr hle)
  · intro hsideSell
    have htext : stringField payload "action" = "SELL" := by
      rw [haction, hsideSell]
      rfl
    have h : ¬ F64.fin stop ≤ .fin entry := hentry ▸ hstop ▸ hsell htext
    exact not_le.mp fun hle => h (F64.fin_le_fin.mpr hle)

/-- The limits `LoadConfig` falls back to. -/
def defaultConfig : Config where
  defaultMaxLot := .fin 100
  defaultMinLot := .fin (1 / 100)
  defaultMaxDailyDrawdown := .fin 5
  defaultMinRR := .fin (3 / 2)
  defaultMaxPositions := 10

/-- An account with a balance and nothing else on record. -/
def plainAccount (balance : ℚ) : AccountData := ⟨some (some balance), none, [], []⟩

/-- A payload as `route_signal_to_live` writes it. -/
def payloadOf (action : String) (entry stop lot : ℚ) (takeProfit : Json) : Json :=
  .obj [("signal_id", .int 7), ("account_id", .int 3), ("symbol", .str "EURUSD"),
    ("action", .str action), ("order_type", .str "LIMIT"), ("entry_price", .dec entry),
    ("stop_loss", .dec stop), ("take_profit", takeProfit), ("lot_size", .dec lot)]

/-- A claimed job for the signal 7 and the account 3. -/
def claimedJob (payload : Json) : LiveJob := (LiveJob.enqueued 42 7 3 9 1 payload 5).claim 6

def quote : SymbolInfo := ⟨.fin (11002 / 10000), .fin (11001 / 10000)⟩

/-- A buy of half a lot at 1.1 with the stop at 1.09. -/
def buyJob : LiveJob := claimedJob (payloadOf "BUY" (11 / 10) (109 / 100) (1 / 2) .null)

theorem buyJob_sent : (sentRequest (fun _ => none) true (some quote) buyJob.payload).isSome = true := by
  with_unfolding_all decide

theorem sent_order_is_limited_of_buyJob : ∃ request,
    sentRequest (fun _ => none) true (some quote) buyJob.payload = some request ∧
      F64.fin (1 / 100) ≤ request.volume ∧ request.volume ≤ .fin 100 := by
  obtain ⟨request, hsent⟩ := Option.isSome_iff_exists.mp buyJob_sent
  have h := sent_order_is_limited defaultConfig (plainAccount 100000) .none buyJob (fun _ => none)
    true (some quote) request (by with_unfolding_all decide) (by decide)
    (by with_unfolding_all decide) hsent
  exact ⟨request, hsent, h.1, h.2.1⟩

/-- A maximum lot that is not a number limits nothing. -/
theorem sent_order_above_nan_limit : ∃ cfg request, 0 < cfg.defaultMinLot ∧
    validateJob cfg (plainAccount 100000) .none buyJob = .ok () ∧
    sentRequest (fun _ => none) true (some quote) buyJob.payload = some request ∧
    ¬ request.volume ≤ cfg.defaultMaxLot := by
  obtain ⟨request, hsent⟩ := Option.isSome_iff_exists.mp buyJob_sent
  exact ⟨{ defaultConfig with defaultMaxLot := .nan }, request, by with_unfolding_all decide,
    by with_unfolding_all decide, hsent, F64.not_le_nan _⟩

/-! ### The daily loss limit -/

/-- The number the worker reads under a key, zero if there is none. -/
def numberField (payload : List (String × Json)) (key : String) : ℚ :=
  (Json.index payload key).number?.getD 0

theorem floatField_eq (payload : List (String × Json)) (key : String) :
    floatField payload key = .fin (numberField payload key) := by
  unfold floatField numberField Json.float64?
  cases (Json.index payload key).number? <;> rfl

/-- The account's own percentage if it is positive, the default otherwise. -/
def dailyLossPercent (cfg : Config) (data : AccountData) : F64 :=
  match data.maxDailyLoss with
  | some (some percent) => if 0 < percent then .fin percent else cfg.defaultMaxDailyDrawdown
  | _ => cfg.defaultMaxDailyDrawdown

/-- The loss the check reckons with: the distance to the stop if lot and prices are positive, ten
times the lot size if not. -/
def reckonedLoss (lot entry stop : ℚ) : ℚ :=
  if 0 < lot ∧ 0 < entry ∧ 0 < stop then lot * 100000 * |entry - stop| else lot * 10

/-- The profit or loss of the day the check reckons with. -/
def reckonedPl (data : AccountData) (failures : QueryFailures) : ℚ :=
  if failures.dailyPl = none then sumColumn data.realizedPl else 0

theorem potentialLoss_fin (lot entry stop : ℚ) :
    ∃ loss, potentialLoss (.fin lot) (.fin entry) (.fin stop) = .fin loss ∧
      reckonedLoss lot entry stop ≤ loss := by
  unfold potentialLoss reckonedLoss
  simp only [F64.zero_def, F64.fin_lt_fin, F64.mul_fin, F64.sub_fin, F64.abs_fin]
  by_cases hpos : 0 < lot ∧ 0 < entry ∧ 0 < stop
  · rw [if_pos hpos, if_pos hpos]
    by_cases hfloor : 0 < lot * 100000 * |entry - stop| ∧ lot * 100000 * |entry - stop| < 1 / 100
    · rw [if_pos hfloor]
      exact ⟨1 / 100, rfl, hfloor.2.le⟩
    · rw [if_neg hfloor]
      exact ⟨_, rfl, le_rfl⟩
  · rw [if_neg hpos, if_neg hpos]
    exact ⟨_, rfl, le_rfl⟩

theorem todayPl_eq (data : AccountData) (failures : QueryFailures) :
    todayPl (queryRow failures.dailyPl (some (.fin (sumColumn data.realizedPl)))) =
      .fin (reckonedPl data failures) := by
  unfold reckonedPl
  cases h : failures.dailyPl with
  | none => rw [if_pos rfl]; rfl
  | some cause => rw [if_neg (by simp)]; rfl

theorem accountBalance_eq_ok {accountId : Nat} {failure : Option String}
    {row : Option (Option ℚ)} {balance : F64}
    (h : accountBalance accountId (queryRow failure (row.map isNull)) = .ok balance) :
    ∃ column, row = some column ∧ balance = .fin (column.getD 0) := by
  cases failure with
  | some cause => cases h
  | none =>
      cases row with
      | none => cases h
      | some column =>
          cases h
          exact ⟨column, rfl, rfl⟩

private theorem maxDailyLossPercent_eq_ok {cfg : Config} {data : AccountData} {failure : Option String}
    {percent : F64}
    (h : maxDailyLossPercent cfg (queryRow failure (data.maxDailyLoss.map isNull)) = .ok percent) :
    percent = dailyLossPercent cfg data := by
  unfold dailyLossPercent
  cases failure with
  | some cause => cases h
  | none =>
      cases hrow : data.maxDailyLoss with
      | none =>
          rw [hrow] at h
          exact (Except.ok.inj h).symm
      | some column =>
          rw [hrow] at h
          cases column with
          | none => exact (Except.ok.inj h).symm
          | some own =>
              have hown : (if F64.fin own ≤ .fin 0 then cfg.defaultMaxDailyDrawdown
                else .fin own) = percent := Except.ok.inj h
              rw [← hown]
              show _ = if 0 < own then F64.fin own else cfg.defaultMaxDailyDrawdown
              by_cases hpos : 0 < own
              · rw [if_pos hpos, if_neg (by rw [F64.fin_le_fin]; exact not_le.mpr hpos)]
              · rw [if_neg hpos, if_pos (F64.fin_le_fin.mpr (not_lt.mp hpos))]

/-- An accepted job cannot lose more than the daily limit, as far as the check reckons: with the
profit or loss it could read and its own estimate of the loss. -/
theorem accepted_within_daily_limit (cfg : Config) (data : AccountData) (failures : QueryFailures)
    (job : LiveJob) (percent : ℚ) (haccept : validateJob cfg data failures job = .ok ())
    (hpercent : dailyLossPercent cfg data = .fin percent) :
    ∃ payload balance, job.payload.unmarshalMap = .ok payload ∧ data.balanceCache = some balance ∧
      -(balance.getD 0 * percent / 100) ≤ reckonedPl data failures -
        reckonedLoss (numberField payload "lot_size") (numberField payload "entry_price")
          (numberField payload "stop_loss") := by
  obtain ⟨payload, hpayload, hinput⟩ := validateJob_eq_ok.mp haccept
  have hdrawdown := (validateInput_eq_ok.mp hinput).drawdown
  obtain ⟨balance, limit, hbalance, -, hlimit, -, hloss⟩ := checkDailyDrawdown_eq_ok.mp hdrawdown
  obtain ⟨column, hcolumn, rfl⟩ := accountBalance_eq_ok hbalance
  obtain rfl : limit = .fin percent := (maxDailyLossPercent_eq_ok hlimit).trans hpercent
  obtain ⟨loss, hestimate, hle⟩ := potentialLoss_fin (numberField payload "lot_size")
    (numberField payload "entry_price") (numberField payload "stop_loss")
  refine ⟨payload, column, hpayload, hcolumn, ?_⟩
  simp only [riskInput, floatField_eq, hestimate, todayPl_eq] at hloss
  rw [F64.div_fin (by norm_num), F64.mul_fin, F64.sub_fin, F64.neg_fin, F64.fin_lt_fin, not_lt,
    mul_div_assoc'] at hloss
  linarith

/-- A day's loss of 4900, with half a lot that can lose another 500 of the 5000 allowed. -/
def losingAccount : AccountData := { plainAccount 100000 with realizedPl := [some (-4900)] }

/-- The check passes when it cannot read the day's loss. -/
theorem accepted_past_daily_limit : ∃ failures,
    validateJob defaultConfig losingAccount failures buyJob = .ok () ∧
    dailyLossPercent defaultConfig losingAccount = .fin 5 ∧
    ¬ -(100000 * 5 / 100) ≤ sumColumn losingAccount.realizedPl -
      (1 / 2) * 100000 * |(11 / 10 : ℚ) - 109 / 100| :=
  ⟨⟨none, none, some "timeout", none⟩, by with_unfolding_all decide, by decide,
    by with_unfolding_all decide⟩

theorem accepted_within_daily_limit_of_buyJob : ∃ payload balance,
    buyJob.payload.unmarshalMap = .ok payload ∧ (plainAccount 100000).balanceCache = some balance ∧
      -(balance.getD 0 * 5 / 100) ≤ reckonedPl (plainAccount 100000) .none -
        reckonedLoss (numberField payload "lot_size") (numberField payload "entry_price")
          (numberField payload "stop_loss") :=
  accepted_within_daily_limit defaultConfig (plainAccount 100000) .none buyJob 5
    (by with_unfolding_all decide) (by decide)

end SphereFx.Live
