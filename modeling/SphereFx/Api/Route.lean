import Mathlib.Algebra.Order.Floor.Ring
import SphereFx.Api.Models
import SphereFx.Live.OrderSafety

/-!
# The job `route_signal_to_live` enqueues, and the risk/reward check on it

The take-profit list of a signal is a list of objects. The worker's check wants a list of numbers and
drops everything else, the bridge wants the objects, so the list reaches MetaTrader unchecked.
-/

namespace SphereFx.Api

open SphereFx.Live

/-- `decimal_round`, half away from zero, on exact rationals. -/
def decimalRound (value : ℚ) (places : Nat) : ℚ :=
  let scaled := |value| * 10 ^ places
  let rounded : ℚ := ⌊scaled + 1 / 2⌋
  (if value < 0 then -rounded else rounded) / 10 ^ places

def normalizeLot (lot minLot maxLot step : ℚ) : ℚ :=
  let lot := if lot < minLot then minLot else lot
  let lot := if lot > maxLot then maxLot else lot
  decimalRound (lot / step) 2 * step

/-- A price or balance that Python counts as true. -/
def nonZero (value : Option ℚ) : Option ℚ := value.filter (· ≠ 0)

/-- The lot size for one percent of the balance. -/
def riskLot (signal : Signal) (account : MT5Account) : ℚ :=
  match nonZero account.balanceCache with
  | none => 1 / 100
  | some balance =>
      match nonZero signal.stopLoss, nonZero signal.entryPrice with
      | some stop, some entry =>
          let riskAmount := balance * (1 / 100)
          let pipDistance := |entry - stop| / (1 / 10000)
          if pipDistance > 0 then riskAmount / (pipDistance * (1 / 10000)) else 1 / 100
      | _, _ => 1 / 100

/-- The lot size of the job: the requested one as it is, or the computed one normalised. -/
def jobLot (requested : Option ℚ) (signal : Signal) (account : MT5Account) : ℚ :=
  match requested with
  | some lot => lot
  | none => normalizeLot (riskLot signal account) (1 / 100) 100 (1 / 100)

/-- `float(price) if price else None`. -/
def priceOrNone (price : Option ℚ) : Json :=
  match nonZero price with
  | some q => .dec q
  | none => .null

def livePayload (signal : Signal) (account : MT5Account) (lot : ℚ) : List (String × Json) :=
  [("signal_id", .int signal.id), ("account_id", .int account.id), ("symbol", .str signal.symbol),
    ("action", .str signal.action), ("order_type", .str signal.orderType),
    ("entry_price", priceOrNone signal.entryPrice), ("stop_loss", priceOrNone signal.stopLoss),
    ("take_profit", signal.takeProfit), ("lot_size", .dec lot)]

def routedJob (id : JobId) (requested : Option ℚ) (signal : Signal) (account : MT5Account)
    (userId now : Nat) : LiveJob :=
  let lot := jobLot requested signal account
  LiveJob.enqueued id signal.id account.id userId lot (.obj (livePayload signal account lot)) now

/-- A take-profit list in the API's format, with the prices in it. -/
def IsTargetList (takeProfit : Json) (prices : List ℚ) : Prop :=
  ∃ items, takeProfit = .arr items ∧ List.Forall₂ (fun item price => ∃ fields, item = .obj fields ∧
    (Json.lookup fields "level").isSome ∧
    (Json.lookup fields "price").bind Json.number? = some price) items prices

/-! ### The normalised lot size -/

/-- The lot size within its bounds. -/
def boundedLot (lot : ℚ) : ℚ := min 100 (max (1 / 100) lot)

theorem boundedLot_ge (lot : ℚ) : 1 / 100 ≤ boundedLot lot :=
  le_min (by norm_num) (le_max_left _ _)

private theorem boundedLot_le (lot : ℚ) : boundedLot lot ≤ 100 := min_le_left _ _

/-- A lot size of the job is a number of ten thousandths, the nearest to the bounded lot size. -/
theorem normalizeLot_eq (lot : ℚ) :
    normalizeLot lot (1 / 100) 100 (1 / 100) = (⌊boundedLot lot * 10000 + 1 / 2⌋ : ℚ) / 10000 := by
  have hbounded : (if (if lot < 1 / 100 then 1 / 100 else lot) > 100 then (100 : ℚ)
      else if lot < 1 / 100 then 1 / 100 else lot) = boundedLot lot := by
    have hmax : (if lot < 1 / 100 then 1 / 100 else lot) = max (1 / 100) lot := by
      rw [max_comm, max_def_lt]
    rw [hmax, boundedLot, min_def]
    split_ifs with habove hbelow hbelow
    · rfl
    · exact absurd (le_of_lt habove) hbelow
    · exact le_antisymm (not_lt.mp habove) hbelow
    · rfl
  have hscaled : |boundedLot lot / (1 / 100)| * 10 ^ 2 = boundedLot lot * 10000 := by
    rw [abs_of_nonneg (by linarith [boundedLot_ge lot])]
    ring
  have hsign : ¬ boundedLot lot / (1 / 100) < 0 := by
    rw [not_lt]
    linarith [boundedLot_ge lot]
  simp only [normalizeLot, hbounded, decimalRound, hscaled, if_neg hsign]
  ring

/-- A computed lot size is between the least and the greatest lot. -/
theorem normalizeLot_bounds (lot : ℚ) :
    1 / 100 ≤ normalizeLot lot (1 / 100) 100 (1 / 100) ∧
      normalizeLot lot (1 / 100) 100 (1 / 100) ≤ 100 := by
  have hge := boundedLot_ge lot
  have hle := boundedLot_le lot
  have hlow : (100 : ℤ) ≤ ⌊boundedLot lot * 10000 + 1 / 2⌋ := by
    apply Int.le_floor.mpr
    push_cast
    linarith
  have hhigh : ⌊boundedLot lot * 10000 + 1 / 2⌋ ≤ (1000000 : ℤ) := by
    apply Int.le_of_lt_add_one
    apply Int.floor_lt.mpr
    push_cast
    linarith
  have hlow' : ((100 : ℤ) : ℚ) ≤ ⌊boundedLot lot * 10000 + 1 / 2⌋ := Int.cast_le.mpr hlow
  have hhigh' : (⌊boundedLot lot * 10000 + 1 / 2⌋ : ℚ) ≤ ((1000000 : ℤ) : ℚ) :=
    Int.cast_le.mpr hhigh
  push_cast at hlow' hhigh'
  rw [normalizeLot_eq]
  constructor <;> linarith

/-! ### What each component makes of the list -/

private theorem takeProfitNumbers_of_objects {payload : List (String × Json)} {items : List Json}
    (hlist : Json.index payload "take_profit" = .arr items)
    (hitems : ∀ item ∈ items, ∃ fields, item = .obj fields) : takeProfitNumbers payload = [] := by
  rw [takeProfitNumbers, hlist]
  refine List.filterMap_eq_nil_iff.mpr fun item hitem => ?_
  obtain ⟨fields, rfl⟩ := hitems item hitem
  rfl

private theorem mapM_object?_remarshal {items : List Json} {prices : List ℚ}
    (h : List.Forall₂ (fun item price => ∃ fields, item = .obj fields ∧
      (Json.lookup fields "level").isSome ∧
      (Json.lookup fields "price").bind Json.number? = some price) items prices) :
    ∃ levels, (items.map Json.remarshal).mapM Json.object? = some levels ∧
      List.Forall₂ (fun fields price =>
        (Json.lookup fields "price").bind Json.number? = some price) levels prices := by
  induction h with
  | nil => exact ⟨[], rfl, .nil⟩
  | cons hitem hrest ih =>
      obtain ⟨fields, rfl, -, hprice⟩ := hitem
      obtain ⟨levels, hlevels, hprices⟩ := ih
      refine ⟨Json.remarshalFields fields :: levels, ?_, .cons ?_ hprices⟩
      · rw [List.map_cons, List.mapM_cons, hlevels]
        rfl
      · rw [Json.lookup_remarshalFields, Option.bind_map]
        simp only [Function.comp_def, Json.number?_remarshal]
        exact hprice

private theorem firstTarget_of_prices {levels : List (List (String × Json))} {prices : List ℚ}
    (h : List.Forall₂ (fun fields price =>
      (Json.lookup fields "price").bind Json.number? = some price) levels prices) :
    ∃ tp, firstTarget (some levels) = .ok tp ∧ tp.bind Json.number? = prices.head? := by
  cases h with
  | nil => exact ⟨none, rfl, rfl⟩
  | cons hprice _ =>
      obtain ⟨price, hlookup, hnumber⟩ := Option.bind_eq_some_iff.mp hprice
      refine ⟨some price, ?_, hnumber⟩
      rw [firstTarget, hlookup]

def withoutTargets (signal : Signal) : Signal := { signal with takeProfit := .null }

private theorem index_livePayload_takeProfit (signal : Signal) (account : MT5Account) (lot : ℚ) :
    Json.index (livePayload signal account lot) "take_profit" = signal.takeProfit := rfl

private theorem riskInput_withoutTargets {signal : Signal} {prices : List ℚ}
    (h : IsTargetList signal.takeProfit prices) (account : MT5Account) (lot : ℚ) :
    riskInput (livePayload signal account lot) =
      riskInput (livePayload (withoutTargets signal) account lot) := by
  obtain ⟨items, hitems, hprices⟩ := h
  have hobjects : ∀ item ∈ items, ∃ fields, item = Json.obj fields := by
    intro item hitem
    obtain ⟨i, hi, rfl⟩ := List.getElem_of_mem hitem
    obtain ⟨fields, hfields, -⟩ := hprices.get hi (hprices.length_eq ▸ hi)
    exact ⟨fields, hfields⟩
  have hnone : takeProfitNumbers (livePayload signal account lot) = [] :=
    takeProfitNumbers_of_objects ((index_livePayload_takeProfit signal account lot).trans hitems)
      hobjects
  show RiskInput.mk _ _ _ _ (takeProfitNumbers (livePayload signal account lot)) _ = _
  rw [hnone]
  rfl

private theorem validateJob_withoutTargets {cfg : Config} {data : AccountData} {failures : QueryFailures}
    {id : JobId} {requested : Option ℚ} {signal : Signal} {account : MT5Account} {userId now : Nat}
    {prices : List ℚ} (h : IsTargetList signal.takeProfit prices) :
    validateJob cfg data failures (routedJob id requested signal account userId now) =
      validateJob cfg data failures
        (routedJob id requested (withoutTargets signal) account userId now) := by
  show validateInput cfg data failures account.id (riskInput (livePayload signal account _)) = _
  rw [riskInput_withoutTargets h]
  rfl

/-- With or without its targets the order is sent alike, and the first target becomes its take
profit. -/
private theorem sentRequest_withTargets {parseFloat : String → Option F64} {connected : Bool}
    {symbolInfo : Option SymbolInfo} {id : JobId} {requested : Option ℚ} {signal : Signal}
    {account : MT5Account} {userId now : Nat} {prices : List ℚ}
    (h : IsTargetList signal.takeProfit prices) :
    ∃ tp : Option Json, tp.bind Json.number? = prices.head? ∧ ∀ trade,
      sentRequest parseFloat connected symbolInfo
          (routedJob id requested signal account userId now).payload = some trade ↔
        trade.tp = tp ∧ sentRequest parseFloat connected symbolInfo
          (routedJob id requested (withoutTargets signal) account userId now).payload =
            some { trade with tp := none } := by
  obtain ⟨items, hitems, hprices⟩ := h
  obtain ⟨levels, hlevels, hlevelPrices⟩ := mapM_object?_remarshal hprices
  obtain ⟨tp, htp, hnumber⟩ := firstTarget_of_prices hlevelPrices
  have hdicts : optionalDicts (some signal.takeProfit.remarshal) = some (some levels) := by
    rw [hitems, Json.remarshal, Json.remarshalItems_eq_map]
    show ((items.map Json.remarshal).mapM Json.object?).map some = _
    rw [hlevels]
    rfl
  refine ⟨tp, hnumber, fun trade => ?_⟩
  rw [sentRequest_eq_some, sentRequest_eq_some]
  constructor
  · rintro ⟨fields, request, hfields, hrequest, htrade⟩
    obtain rfl := Except.ok.inj hfields
    have hmatches := validateOrder_eq_some.mp hrequest
    obtain ⟨hconnected, info, hinfo, htarget, heq⟩ := tradeRequest_eq_ok.mp htrade
    have hrequestTp : request.takeProfit = some levels :=
      Option.some.inj (hmatches.takeProfit.symm.trans hdicts)
    rw [hrequestTp, htp] at htarget
    refine ⟨(Except.ok.inj htarget).symm, _, { request with takeProfit := none }, rfl,
      validateOrder_eq_some.mpr { hmatches with takeProfit := rfl }, tradeRequest_eq_ok.mpr
      ⟨hconnected, info, hinfo, rfl, ?_⟩⟩
    rw [heq]
  · rintro ⟨rfl, fields, request, hfields, hrequest, htrade⟩
    obtain rfl := Except.ok.inj hfields
    have hmatches := validateOrder_eq_some.mp hrequest
    obtain ⟨hconnected, info, hinfo, -, heq⟩ := tradeRequest_eq_ok.mp htrade
    refine ⟨_, { request with takeProfit := some levels }, rfl,
      validateOrder_eq_some.mpr { hmatches with takeProfit := hdicts }, tradeRequest_eq_ok.mpr
      ⟨hconnected, info, hinfo, htp, ?_⟩⟩
    obtain ⟨_, _, _, _, _, _, _, _, _, _, _, _⟩ := trade
    cases heq
    rfl

/-! ### When the minimum ratio is kept -/

def rewardRatio (signal : Signal) (tp : ℚ) : F64 :=
  let entry := signal.entryPrice.getD 0
  .fin (|tp - entry| / |entry - signal.stopLoss.getD 0|)

def SentWithoutTargets (cfg : Config) (data : AccountData) (failures : QueryFailures)
    (parseFloat : String → Option F64) (connected : Bool) (symbolInfo : Option SymbolInfo)
    (id : JobId) (requested : Option ℚ) (signal : Signal) (account : MT5Account) (userId now : Nat) :
    Prop :=
  let job := routedJob id requested (withoutTargets signal) account userId now
  validateJob cfg data failures job = .ok () ∧
    (sentRequest parseFloat connected symbolInfo job.payload).isSome = true

/-- An order goes out with a take profit of at least the minimum ratio exactly when the signal has no
target, when its first target keeps the ratio by itself, or when something else stops the order. -/
theorem min_rr_kept_iff (cfg : Config) (data : AccountData) (failures : QueryFailures)
    (parseFloat : String → Option F64) (connected : Bool) (symbolInfo : Option SymbolInfo)
    (id : JobId) (requested : Option ℚ) (signal : Signal) (account : MT5Account) (userId now : Nat)
    (prices : List ℚ) (htargets : IsTargetList signal.takeProfit prices) :
    (∀ trade tp,
      validateJob cfg data failures (routedJob id requested signal account userId now) = .ok () →
      sentRequest parseFloat connected symbolInfo
        (routedJob id requested signal account userId now).payload = some trade →
      trade.tp.bind Json.number? = some tp → cfg.defaultMinRR ≤ rewardRatio signal tp) ↔
    (prices = [] ∨ (∃ tp, prices.head? = some tp ∧ cfg.defaultMinRR ≤ rewardRatio signal tp) ∨
      ¬ SentWithoutTargets cfg data failures parseFloat connected symbolInfo id requested signal
        account userId now) := by
  obtain ⟨target, hnumber, hsent⟩ := @sentRequest_withTargets parseFloat connected symbolInfo id
    requested signal account userId now prices htargets
  rw [validateJob_withoutTargets htargets]
  constructor
  · intro h
    cases prices with
    | nil => exact Or.inl rfl
    | cons tp rest =>
        by_cases hother : SentWithoutTargets cfg data failures parseFloat connected symbolInfo id
            requested signal account userId now
        · obtain ⟨haccept, hsome⟩ := hother
          obtain ⟨trade, htrade⟩ := Option.isSome_iff_exists.mp hsome
          obtain ⟨_, _, hfields, horder, hrequest⟩ := sentRequest_eq_some.mp htrade
          obtain rfl := Except.ok.inj hfields
          obtain ⟨_, _, _, hnone, _⟩ := tradeRequest_eq_ok.mp hrequest
          rw [← Option.some.inj (validateOrder_eq_some.mp horder).takeProfit] at hnone
          have hplain : { { trade with tp := target } with tp := none } = trade := by
            rw [Except.ok.inj hnone]
          have hwith := (hsent { trade with tp := target }).mpr ⟨rfl, by rw [hplain]; exact htrade⟩
          exact Or.inr (Or.inl ⟨tp, rfl, h _ tp haccept hwith hnumber⟩)
        · exact Or.inr (Or.inr hother)
  · rintro hcondition trade tp haccept htrade htp
    obtain ⟨rfl, hplain⟩ := (hsent trade).mp htrade
    rw [hnumber] at htp
    rcases hcondition with rfl | ⟨first, hfirst, hratio⟩ | hother
    · cases htp
    · rw [htp] at hfirst
      rw [Option.some.inj hfirst]
      exact hratio
    · exact absurd ⟨haccept, by rw [hplain]; rfl⟩ hother

/-- A buy whose target is a tenth of the risk away. -/
def nearTarget : Signal where
  id := 7
  rawText := none
  symbol := "EURUSD"
  action := "BUY"
  orderType := "LIMIT"
  entryPrice := some (11 / 10)
  stopLoss := some (109 / 100)
  takeProfit := .arr [.obj [("level", .int 1), ("price", .dec (1101 / 1000))]]
  confidence := 80
  status := "PENDING"
  channelId := none
  createdBy := 9
  createdAt := 1

def demoAccount : MT5Account := ⟨3, 9, "", "", "Demo", true, some 100000, none, none⟩

def nearTargetJob : LiveJob := routedJob 42 (some (1 / 2)) nearTarget demoAccount 9 5

private theorem nearTarget_targets : IsTargetList nearTarget.takeProfit [1101 / 1000] :=
  ⟨_, rfl, .cons ⟨_, rfl, rfl, rfl⟩ .nil⟩

theorem nearTarget_sent : ∃ trade,
    validateJob defaultConfig (plainAccount 100000) .none nearTargetJob = .ok () ∧
    sentRequest (fun _ => none) true (some quote) nearTargetJob.payload = some trade ∧
    trade.tp.bind Json.number? = some (1101 / 1000) ∧
    ¬ defaultConfig.defaultMinRR ≤ rewardRatio nearTarget (1101 / 1000) := by
  have hsome : ((sentRequest (fun _ => none) true (some quote) nearTargetJob.payload).bind
      fun trade => trade.tp.bind Json.number?) = some (1101 / 1000) := by with_unfolding_all decide
  obtain ⟨trade, hsent, htp⟩ := Option.bind_eq_some_iff.mp hsome
  exact ⟨trade, by with_unfolding_all decide, hsent, htp, by with_unfolding_all decide⟩

theorem min_rr_kept_iff_of_nearTarget :
    ¬ (∀ trade tp,
      validateJob defaultConfig (plainAccount 100000) .none nearTargetJob = .ok () →
      sentRequest (fun _ => none) true (some quote) nearTargetJob.payload = some trade →
      trade.tp.bind Json.number? = some tp →
        defaultConfig.defaultMinRR ≤ rewardRatio nearTarget tp) := by
  intro h
  rcases (min_rr_kept_iff defaultConfig (plainAccount 100000) .none (fun _ => none) true (some quote)
    42 (some (1 / 2)) nearTarget demoAccount 9 5 [1101 / 1000] nearTarget_targets).mp h with
    hnil | ⟨tp, hhead, hratio⟩ | hother
  · cases hnil
  · cases hhead
    exact absurd hratio (by with_unfolding_all decide)
  · exact hother ⟨by with_unfolding_all decide, by with_unfolding_all decide⟩

end SphereFx.Api
