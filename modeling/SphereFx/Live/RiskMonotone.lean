import SphereFx.Live.PositionCount

/-!
# Less risk is never refused

A job that passes the checks passes them again with a smaller lot, a closer stop, a higher balance, a
better day or fewer open positions that can be read. Each check is monotone by itself: the closer stop
makes the estimated loss smaller and the ratio of reward to risk larger. Open positions that cannot be
read are not counted, so that fewer of all the open positions may be more for the check.
-/

namespace SphereFx.Live

/-- The same prices with a lot no larger that still reaches the minimum, and the stop where it was or
strictly closer to the entry on the same side. -/
structure RisksLess (cfg : Config) (input input' : RiskInput) : Prop where
  action : input'.action = input.action
  entryPrice : input'.entryPrice = input.entryPrice
  takeProfit : input'.takeProfit = input.takeProfit
  lotSize : input'.lotSize ≤ input.lotSize
  minLot : ¬ input'.lotSize < cfg.defaultMinLot
  stopLoss : input'.stopLoss = input.stopLoss ∨
    (input.stopLoss < input'.stopLoss ∧ input'.stopLoss < input.entryPrice) ∨
    (input.entryPrice < input'.stopLoss ∧ input'.stopLoss < input.stopLoss)

/-- Positive prices. -/
structure RiskInput.Priced (input : RiskInput) : Prop where
  entryPrice : 0 < input.entryPrice
  stopLoss : 0 < input.stopLoss

/-- The same account with a balance no lower, a day no worse and no more of the open positions that
`GetOpenPositions` can read, which are those that the check counts. -/
structure Eases (accountId : Nat) (data data' : AccountData) : Prop where
  balance : ∀ balance ∈ data.balanceCache, ∃ balance' ∈ data'.balanceCache,
    balance.getD 0 ≤ balance'.getD 0
  maxDailyLoss : data'.maxDailyLoss = data.maxDailyLoss
  realizedPl : sumColumn data.realizedPl ≤ sumColumn data'.realizedPl
  positions : readableCount data'.positions accountId ≤ readableCount data.positions accountId

/-! ### Closing a position -/

/-- Closing a position leaves no more of them open. -/
theorem readableCount_closePosition_le (table : List LivePosition) (positionId now : Nat)
    (closeReason : String) (accountId : Nat) :
    readableCount (closePosition table positionId now closeReason) accountId ≤
      readableCount table accountId := by
  rw [readableCount, closePosition, List.countP_map]
  apply List.countP_mono_left
  intro row _ h
  rw [Function.comp_apply] at h
  by_cases hid : row.id = positionId
  · rw [if_pos hid, Bool.and_eq_true, LivePosition.isOpen, Bool.and_eq_true, decide_eq_true_eq,
      decide_eq_true_eq] at h
    exact absurd h.1.2 (by simp)
  · rwa [if_neg hid] at h

/-! ### One check at a time -/

section Checks

variable {cfg : Config} {lot lot' entry stop stop' : ℚ}

/-- The smallest loss the estimate gives for a position that can lose at all. -/
def floorLoss (loss : ℚ) : ℚ := if 0 < loss ∧ loss < 1 / 100 then 1 / 100 else loss

theorem le_floorLoss (loss : ℚ) : loss ≤ floorLoss loss := by
  unfold floorLoss
  split
  · rename_i h
    exact h.2.le
  · exact le_rfl

private theorem floorLoss_mono {loss loss' : ℚ} (h : loss' ≤ loss) : floorLoss loss' ≤ floorLoss loss := by
  by_cases hsmall : 0 < loss' ∧ loss' < 1 / 100
  · rw [floorLoss, if_pos hsmall, floorLoss]
    split
    · exact le_rfl
    · rename_i hlarge
      exact not_lt.mp fun hlt => hlarge ⟨hsmall.1.trans_le h, hlt⟩
  · rw [floorLoss, if_neg hsmall]
    exact h.trans (le_floorLoss loss)

/-- The estimate of `checkDailyDrawdown` for positive prices. -/
def estimatedLoss (lot distance : ℚ) : ℚ :=
  if 0 < lot then floorLoss (lot * 100000 * distance) else lot * 10

theorem potentialLoss_priced (hentry : 0 < entry) (hstop : 0 < stop) :
    potentialLoss (.fin lot) (.fin entry) (.fin stop) = .fin (estimatedLoss lot |entry - stop|) := by
  unfold potentialLoss estimatedLoss floorLoss
  simp only [F64.zero_def, F64.fin_lt_fin, F64.mul_fin, F64.sub_fin, F64.abs_fin]
  by_cases hlot : 0 < lot
  · rw [if_pos ⟨hlot, hentry, hstop⟩, if_pos hlot, ← apply_ite F64.fin]
  · rw [if_neg fun h => hlot h.1, if_neg hlot]

private theorem estimatedLoss_mono {distance distance' : ℚ} (hlot : lot' ≤ lot) (hnonneg : 0 ≤ distance')
    (hdistance : distance' ≤ distance) : estimatedLoss lot' distance' ≤ estimatedLoss lot distance := by
  unfold estimatedLoss
  by_cases hpos' : 0 < lot'
  · have hpos : 0 < lot := hpos'.trans_le hlot
    rw [if_pos hpos', if_pos hpos]
    apply floorLoss_mono
    apply mul_le_mul
    · linarith
    · exact hdistance
    · exact hnonneg
    · linarith
  · rw [if_neg hpos']
    by_cases hpos : 0 < lot
    · rw [if_pos hpos]
      have hloss : 0 ≤ lot * 100000 * distance :=
        mul_nonneg (by linarith) (hnonneg.trans hdistance)
      have hfloor := le_floorLoss (lot * 100000 * distance)
      linarith
    · rw [if_neg hpos]
      linarith

/-- A percentage of a higher balance allows at least the loss that the same percentage of a lower one
does. -/
private theorem limit_mono {balance balance' pl pl' : ℚ} {percent : F64} (hpos : 0 < balance)
    (hbalance : balance ≤ balance') (hpl : pl ≤ pl')
    (hlimit : ¬ F64.fin balance * (percent / .fin 100) ≤ 0)
    (hwithin : ¬ F64.fin pl < -(F64.fin balance * (percent / .fin 100))) :
    ¬ F64.fin balance' * (percent / .fin 100) ≤ 0 ∧
      ¬ F64.fin pl' < -(F64.fin balance' * (percent / .fin 100)) := by
  have hpos' : 0 < balance' := hpos.trans_le hbalance
  have hhundred : (100 : ℚ) ≠ 0 := by norm_num
  cases percent with
  | fin q =>
      rw [F64.div_fin hhundred, F64.mul_fin, F64.zero_def, F64.fin_le_fin, not_le] at hlimit
      rw [F64.div_fin hhundred, F64.mul_fin, F64.neg_fin, F64.fin_lt_fin, not_lt] at hwithin
      have hshare : 0 < q / 100 := pos_of_mul_pos_right hlimit hpos.le
      have hallowed : balance * (q / 100) ≤ balance' * (q / 100) :=
        mul_le_mul_of_nonneg_right hbalance hshare.le
      rw [F64.div_fin hhundred, F64.mul_fin, F64.zero_def, F64.fin_le_fin, F64.neg_fin,
        F64.fin_lt_fin, not_le, not_lt]
      exact ⟨hlimit.trans_le hallowed, by linarith⟩
  | inf negative =>
      have hinf : F64.inf negative / .fin 100 = .inf negative := by
        cases negative <;> rfl
      rw [hinf, F64.mul_inf_of_pos hpos] at hlimit hwithin
      rw [hinf, F64.mul_inf_of_pos hpos']
      exact ⟨hlimit, fun h => hwithin (F64.lt_of_fin_le hpl h)⟩
  | nan => exact ⟨fun h => Bool.noConfusion h, F64.not_lt_nan _⟩

private theorem checkDailyDrawdown_mono {data data' : AccountData} {accountId : Nat}
    (hdata : Eases accountId data data') (hentry : 0 < entry) (hstop : 0 < stop) (hstop' : 0 < stop')
    (hlot : lot' ≤ lot) (hcloser : |entry - stop'| ≤ |entry - stop|)
    (h : checkDailyDrawdown cfg data .none accountId (.fin lot) (.fin entry) (.fin stop) = .ok ()) :
    checkDailyDrawdown cfg data' .none accountId (.fin lot') (.fin entry) (.fin stop') = .ok () := by
  obtain ⟨balance, percent, hbalance, hpositive, hpercent, hlimit, hwithin⟩ :=
    checkDailyDrawdown_eq_ok.mp h
  obtain ⟨column, hcolumn, rfl⟩ := accountBalance_eq_ok hbalance
  obtain ⟨column', hcolumn', hhigher⟩ := hdata.balance column hcolumn
  rw [F64.zero_def, F64.fin_le_fin, not_le] at hpositive
  rw [todayPl_eq, potentialLoss_priced hentry hstop, F64.sub_fin] at hwithin
  have hbetter : sumColumn data.realizedPl - estimatedLoss lot |entry - stop| ≤
      sumColumn data'.realizedPl - estimatedLoss lot' |entry - stop'| :=
    sub_le_sub hdata.realizedPl (estimatedLoss_mono hlot (abs_nonneg _) hcloser)
  obtain ⟨hlimit', hwithin'⟩ := limit_mono hpositive hhigher hbetter hlimit hwithin
  refine checkDailyDrawdown_eq_ok.mpr ⟨.fin (column'.getD 0), percent, ?_, ?_, ?_, hlimit', ?_⟩
  · rw [Option.mem_def.mp hcolumn']
    rfl
  · rw [F64.zero_def, F64.fin_le_fin, not_le]
    exact hpositive.trans_le hhigher
  · rw [hdata.maxDailyLoss]
    exact hpercent
  · rw [todayPl_eq, potentialLoss_priced hentry hstop', F64.sub_fin]
    exact hwithin'

private theorem checkMaxPositions_mono {data data' : AccountData} {accountId : Nat}
    (hdata : Eases accountId data data') (h : checkMaxPositions cfg data .none accountId = .ok ()) :
    checkMaxPositions cfg data' .none accountId = .ok () := by
  rw [checkMaxPositions_eq_ok rfl] at h ⊢
  have hfewer := hdata.positions
  omega

/-- A closer stop has a higher ratio of reward to risk, or one that is not checked. -/
private theorem checkMinRR_mono {targets : List F64} (htargets : ∀ tp ∈ targets, tp.isFinite = true)
    (hentry : 0 < entry) (hstop : 0 < stop) (hcloser : |entry - stop'| ≤ |entry - stop|)
    (h : checkMinRR cfg (.fin entry) (.fin stop) targets = .ok ()) :
    checkMinRR cfg (.fin entry) (.fin stop') targets = .ok () := by
  have hpriced : (F64.eq (.fin entry) 0 || F64.eq (.fin stop) 0) = false := by
    rw [Bool.or_eq_false_iff]
    exact ⟨decide_eq_false hentry.ne', decide_eq_false hstop.ne'⟩
  unfold checkMinRR at h ⊢
  rw [hpriced] at h
  simp only [Bool.false_eq_true, if_false] at h
  split
  · rfl
  · cases targets with
    | nil => rfl
    | cons tp rest =>
        obtain ⟨target, rfl⟩ := F64.isFinite_iff.mp (htargets tp List.mem_cons_self)
        simp only [F64.sub_fin, F64.abs_fin, F64.zero_def, F64.fin_eq_fin] at h ⊢
        split
        · rfl
        · rename_i hrisk'
          have hpos' : 0 < |entry - stop'| := lt_of_le_of_ne (abs_nonneg _) (Ne.symm hrisk')
          have hpos : 0 < |entry - stop| := hpos'.trans_le hcloser
          rw [if_neg hpos.ne', F64.div_fin hpos.ne', refuseIf_eq_ok] at h
          rw [F64.div_fin hpos'.ne', refuseIf_eq_ok]
          intro hbelow
          apply h
          apply F64.lt_of_fin_le _ hbelow
          exact div_le_div_of_nonneg_left (abs_nonneg _) hpos' hcloser

end Checks

/-! ### The whole validation -/

private theorem closer_of_moved {entry stop stop' : ℚ}
    (h : stop' = stop ∨ (stop < stop' ∧ stop' < entry) ∨ (entry < stop' ∧ stop' < stop)) :
    |entry - stop'| ≤ |entry - stop| := by
  rcases h with rfl | ⟨hcloser, hbelow⟩ | ⟨habove, hcloser⟩
  · exact le_rfl
  · rw [abs_of_pos (sub_pos.mpr hbelow), abs_of_pos (sub_pos.mpr (hcloser.trans hbelow))]
    linarith
  · rw [abs_of_neg (sub_neg.mpr habove), abs_of_neg (sub_neg.mpr (habove.trans hcloser))]
    linarith

private theorem checkStopSide_mono {action : String} {entry stop stop' : ℚ} (hstop' : 0 < stop')
    (hmoved : stop' = stop ∨ (stop < stop' ∧ stop' < entry) ∨ (entry < stop' ∧ stop' < stop))
    (h : checkStopSide action (.fin entry) (.fin stop) = .ok ()) :
    checkStopSide action (.fin entry) (.fin stop') = .ok () := by
  obtain ⟨hentry, -, hbuy, hsell⟩ := checkStopSide_eq_ok.mp h
  simp only [F64.fin_le_fin, not_le] at hbuy hsell
  refine checkStopSide_eq_ok.mpr ⟨hentry, decide_eq_false hstop'.ne', ?_, ?_⟩
  · intro haction
    have hside := hbuy haction
    rw [F64.fin_le_fin, not_le]
    rcases hmoved with rfl | ⟨-, hbelow⟩ | ⟨habove, hcloser⟩
    · exact hside
    · exact hbelow
    · linarith
  · intro haction
    have hside := hsell haction
    rw [F64.fin_le_fin, not_le]
    rcases hmoved with rfl | ⟨hcloser, hbelow⟩ | ⟨habove, -⟩
    · exact hside
    · linarith
    · exact habove

private theorem mem_takeProfitNumbers {payload : List (String × Json)} {tp : F64}
    (h : tp ∈ takeProfitNumbers payload) : tp.isFinite = true := by
  obtain ⟨v, -, hv⟩ := List.mem_filterMap.mp h
  obtain ⟨q, -, rfl⟩ := Option.map_eq_some_iff.mp hv
  rfl

/-- An accepted job stays accepted with less risk on an account that is no worse off. -/
theorem risk_monotone {cfg : Config} {data data' : AccountData} {job job' : LiveJob}
    {payload payload' : List (String × Json)} (haccount : job'.accountId = job.accountId)
    (hpayload : job.payload.unmarshalMap = .ok payload)
    (hpayload' : job'.payload.unmarshalMap = .ok payload') (hpriced : (riskInput payload).Priced)
    (hpriced' : (riskInput payload').Priced) (hdata : Eases job.accountId data data')
    (hless : RisksLess cfg (riskInput payload) (riskInput payload'))
    (haccept : validateJob cfg data .none job = .ok ()) :
    validateJob cfg data' .none job' = .ok () := by
  obtain ⟨accepted, haccepted, hinput⟩ := validateJob_eq_ok.mp haccept
  obtain rfl : payload = accepted := Except.ok.inj (hpayload.symm.trans haccepted)
  obtain ⟨-, hmax, hdrawdown, hpositions, hrr, hside⟩ := validateInput_eq_ok.mp hinput
  obtain ⟨hentry, hstop⟩ := hpriced
  obtain ⟨-, hstop'⟩ := hpriced'
  obtain ⟨haction, hsame, htargets, hlot, hmin, hmoved⟩ := hless
  have hfinite : ∀ tp ∈ takeProfitNumbers payload, tp.isFinite = true :=
    fun _ => mem_takeProfitNumbers
  simp only [riskInput, floatField_eq, F64.zero_def, F64.fin_lt_fin] at hentry hstop hstop'
  simp only [riskInput, floatField_eq] at hmax hdrawdown hrr hside
  simp only [riskInput, floatField_eq, F64.fin_lt_fin, F64.fin_le_fin, F64.fin.injEq]
    at haction hsame htargets hlot hmin hmoved
  have hcloser := closer_of_moved hmoved
  refine validateJob_eq_ok.mpr ⟨payload', hpayload', validateInput_eq_ok.mpr ?_⟩
  rw [haccount]
  refine ⟨?_, ?_, ?_, checkMaxPositions_mono hdata hpositions, ?_, ?_⟩
  · simpa only [riskInput, floatField_eq] using hmin
  · simp only [riskInput, floatField_eq]
    exact fun habove => hmax (F64.lt_fin_of_le hlot habove)
  · simp only [riskInput, floatField_eq, hsame]
    exact checkDailyDrawdown_mono hdata hentry hstop hstop' hlot hcloser hdrawdown
  · simp only [riskInput, floatField_eq, hsame, htargets]
    exact checkMinRR_mono hfinite hentry hstop hcloser hrr
  · simp only [riskInput, floatField_eq, hsame, haction]
    exact checkStopSide_mono hstop' hmoved hside

/-- The buy with a quarter of a lot and its stop at 1.095. -/
def saferJob : LiveJob := claimedJob (payloadOf "BUY" (11 / 10) (1095 / 1000) (1 / 4) .null)

theorem risk_monotone_saferJob :
    validateJob defaultConfig (plainAccount 200000) .none saferJob = .ok () := by
  apply @risk_monotone defaultConfig (plainAccount 100000) (plainAccount 200000) buyJob saferJob _ _
    rfl rfl rfl
  · exact ⟨by with_unfolding_all decide, by with_unfolding_all decide⟩
  · exact ⟨by with_unfolding_all decide, by with_unfolding_all decide⟩
  · refine ⟨fun balance hbalance => ⟨some 200000, rfl, ?_⟩, rfl, le_rfl, le_rfl⟩
    obtain rfl := Option.some.inj hbalance
    norm_num
  · refine ⟨rfl, rfl, rfl, by with_unfolding_all decide, by with_unfolding_all decide,
      Or.inr (Or.inl ⟨?_, ?_⟩)⟩
    · with_unfolding_all decide
    · with_unfolding_all decide
  · with_unfolding_all decide

/-- Two open positions without a price leave room under a limit of one, and a single one with a price
does not. -/
theorem fewer_positions_refused :
    ¬ ∀ (cfg : Config) (positions positions' : List LivePosition),
      openCount positions' buyJob.accountId < openCount positions buyJob.accountId →
        validateJob cfg (accountWith positions) .none buyJob = .ok () →
          validateJob cfg (accountWith positions') .none buyJob = .ok () := by
  intro h
  have hfewer : openCount [pricedPosition] buyJob.accountId <
      openCount [unpricedPosition, { unpricedPosition with id := 2 }] buyJob.accountId := by decide
  have haccepted : validateJob onePosition
      (accountWith [unpricedPosition, { unpricedPosition with id := 2 }]) .none buyJob = .ok () := by
    with_unfolding_all decide
  have hrefused : validateJob onePosition (accountWith [pricedPosition]) .none buyJob ≠ .ok () := by
    with_unfolding_all decide
  exact hrefused (h onePosition _ _ hfewer haccepted)

end SphereFx.Live
