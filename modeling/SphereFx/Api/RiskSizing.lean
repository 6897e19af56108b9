import SphereFx.Api.Route
import SphereFx.Api.Signals

/-!
# The computed lot size against the worker's estimate of the loss

`route_signal_to_live` divides one percent of the balance by the distance to the stop, so it takes a lot
to be one unit. `checkDailyDrawdown` takes it to be 100000 units. A job with a computed lot keeps to the
one percent only where the bounds of `normalize_lot` decide the lot.
-/

namespace SphereFx.Api

open SphereFx.Live

/-! ### The lot size -/

private theorem riskLot_eq {signal : Signal} {account : MT5Account} {entry stop balance : ℚ}
    (hentry : signal.entryPrice = some entry) (hstop : signal.stopLoss = some stop)
    (hbalance : account.balanceCache = some balance) (hentryPos : 0 < entry) (hstopPos : 0 < stop)
    (hbalancePos : 0 < balance) (hne : entry ≠ stop) :
    riskLot signal account = balance / 100 / |entry - stop| := by
  have hkept : ∀ {q : ℚ}, 0 < q → nonZero (some q) = some q := fun hq =>
    Option.filter_eq_some_iff.mpr ⟨rfl, decide_eq_true hq.ne'⟩
  have hdistance : |entry - stop| / (1 / 10000) > 0 :=
    div_pos (abs_pos.mpr (sub_ne_zero.mpr hne)) (by norm_num)
  simp only [riskLot, hentry, hstop, hbalance, hkept hentryPos, hkept hstopPos, hkept hbalancePos,
    if_pos hdistance]
  rw [div_mul_cancel₀ _ (by norm_num : (1 / 10000 : ℚ) ≠ 0), mul_one_div]

private theorem normalizeLot_eq_min {lot : ℚ} :
    normalizeLot lot (1 / 100) 100 (1 / 100) = 1 / 100 ↔ lot < 201 / 20000 := by
  rw [normalizeLot_eq, div_eq_iff (by norm_num)]
  have hfloor : (⌊boundedLot lot * 10000 + 1 / 2⌋ : ℚ) = 1 / 100 * 10000 ↔
      ⌊boundedLot lot * 10000 + 1 / 2⌋ = 100 := by
    norm_num
    norm_cast
  rw [hfloor, Int.floor_eq_iff]
  constructor
  · rintro ⟨-, hless⟩
    have hbounded : boundedLot lot < 201 / 20000 := by
      push_cast at hless
      linarith
    rcases min_lt_iff.mp hbounded with habove | hbelow
    · norm_num at habove
    · exact (max_lt_iff.mp hbelow).2
  · intro h
    have hbounded : boundedLot lot < 201 / 20000 :=
      min_lt_iff.mpr (Or.inr (max_lt (by norm_num) h))
    have hge := boundedLot_ge lot
    push_cast
    constructor <;> linarith

private theorem normalizeLot_of_large {lot : ℚ} (h : 100 ≤ lot) :
    normalizeLot lot (1 / 100) 100 (1 / 100) = 100 := by
  have hbounded : boundedLot lot = 100 := min_eq_left (h.trans (le_max_right _ _))
  have hfloor : ⌊(100 : ℚ) * 10000 + 1 / 2⌋ = 1000000 := by
    rw [Int.floor_eq_iff]
    constructor <;> norm_num
  rw [normalizeLot_eq, hbounded, hfloor]
  norm_num

private theorem lt_normalizeLot {lot : ℚ} (hlow : 201 / 20000 ≤ lot) (hhigh : lot < 10000000) :
    lot < normalizeLot lot (1 / 100) 100 (1 / 100) * 100000 := by
  have hround := Int.lt_floor_add_one (boundedLot lot * 10000 + 1 / 2)
  rw [normalizeLot_eq]
  rcases le_or_gt lot 100 with hle | hgt
  · have hbounded : boundedLot lot = lot := by
      rw [boundedLot, max_eq_right (by linarith), min_eq_right hle]
    rw [hbounded] at hround ⊢
    linarith
  · have hbounded : boundedLot lot = 100 := by
      rw [boundedLot, max_eq_right (by linarith), min_eq_left hgt.le]
    rw [hbounded] at hround ⊢
    linarith

private theorem distance_of_eightPlaces {a b : ℚ} (ha : EightPlaces a) (hb : EightPlaces b) (hne : a ≠ b) :
    1 / 10 ^ 8 ≤ |a - b| := by
  have hscaled : ((a * 10 ^ 8).num - (b * 10 ^ 8).num : ℚ) = (a - b) * 10 ^ 8 := by
    rw [Rat.coe_int_num_of_den_eq_one ha, Rat.coe_int_num_of_den_eq_one hb, sub_mul]
  have hnonzero : (a * 10 ^ 8).num - (b * 10 ^ 8).num ≠ 0 := by
    intro h
    have hzero : (a - b) * 10 ^ 8 = 0 := by
      rw [← hscaled]
      exact_mod_cast h
    exact hne (sub_eq_zero.mp ((mul_eq_zero.mp hzero).resolve_right (by norm_num)))
  have hone : (1 : ℚ) ≤ |(a - b) * 10 ^ 8| := by
    rw [← hscaled]
    exact_mod_cast Int.one_le_abs hnonzero
  rw [abs_mul, abs_of_pos (by norm_num : (0 : ℚ) < 10 ^ 8)] at hone
  rw [div_le_iff₀ (by norm_num)]
  exact hone

/-! ### What the worker makes of the job -/

/-- The potential loss of `checkDailyDrawdown`. -/
def workerLoss (payload : List (String × Json)) : F64 :=
  potentialLoss (floatField payload "lot_size") (floatField payload "entry_price")
    (floatField payload "stop_loss")

def dailyDrawdown (cfg : Config) (data : AccountData) (accountId : Nat)
    (payload : List (String × Json)) : Except RiskError Unit :=
  checkDailyDrawdown cfg data .none accountId (floatField payload "lot_size")
    (floatField payload "entry_price") (floatField payload "stop_loss")

/-- Nothing was won or lost today, and the limit of five percent is in force. -/
structure FreshDay (cfg : Config) (data : AccountData) (balance : ℚ) : Prop where
  balance : data.balanceCache = some (some balance)
  limit : maxDailyLossPercent cfg (queryRow none (data.maxDailyLoss.map isNull)) = .ok (.fin 5)
  pl : sumColumn data.realizedPl = 0

/-- The lot is the minimum, or the job can lose at most one percent of the balance and the check of a
fresh day passes. -/
def RespectsRisk (signal : Signal) (account : MT5Account) (balance : ℚ) : Prop :=
  let lot := jobLot none signal account
  let payload := livePayload signal account lot
  lot = 1 / 100 ∨
    workerLoss payload ≤ .fin (balance / 100) ∧
      ∀ cfg data, FreshDay cfg data balance → dailyDrawdown cfg data account.id payload = .ok ()

section Fields

variable {signal : Signal} {entry stop : ℚ} (account : MT5Account) (lot : ℚ)

private theorem floatField_lot : floatField (livePayload signal account lot) "lot_size" = .fin lot := rfl

theorem floatField_price {price : ℚ} (h : 0 < price) :
    (priceOrNone (some price)).float64?.getD 0 = .fin price := by
  have hkept : nonZero (some price) = some price :=
    Option.filter_eq_some_iff.mpr ⟨rfl, decide_eq_true h.ne'⟩
  rw [priceOrNone, hkept]
  rfl

private theorem floatField_entry (hentry : signal.entryPrice = some entry) (hpos : 0 < entry) :
    floatField (livePayload signal account lot) "entry_price" = .fin entry := by
  show (priceOrNone signal.entryPrice).float64?.getD 0 = _
  rw [hentry, floatField_price hpos]

private theorem floatField_stop (hstop : signal.stopLoss = some stop) (hpos : 0 < stop) :
    floatField (livePayload signal account lot) "stop_loss" = .fin stop := by
  show (priceOrNone signal.stopLoss).float64?.getD 0 = _
  rw [hstop, floatField_price hpos]

end Fields

private theorem potentialLoss_of_cent {lot entry stop : ℚ} (hlot : 0 < lot) (hentry : 0 < entry)
    (hstop : 0 < stop) (hcent : 1 / 100 ≤ lot * 100000 * |entry - stop|) :
    potentialLoss (.fin lot) (.fin entry) (.fin stop) = .fin (lot * 100000 * |entry - stop|) := by
  have hpos : (0 : F64) < .fin lot ∧ (0 : F64) < .fin entry ∧ (0 : F64) < .fin stop := by
    simp only [F64.zero_def, F64.fin_lt_fin]
    exact ⟨hlot, hentry, hstop⟩
  rw [potentialLoss, if_pos hpos]
  simp only [F64.zero_def, F64.fin_lt_fin, F64.mul_fin, F64.sub_fin, F64.abs_fin]
  rw [if_neg fun h => absurd h.2 (not_lt.mpr hcent)]

private theorem dailyDrawdown_of_freshDay {cfg : Config} {data : AccountData} {balance loss : ℚ}
    {accountId : Nat} {payload : List (String × Json)} (hbalance : 0 < balance)
    (hfresh : FreshDay cfg data balance) (hloss : workerLoss payload = .fin loss)
    (hle : loss ≤ balance / 100) : dailyDrawdown cfg data accountId payload = .ok () := by
  refine checkDailyDrawdown_eq_ok.mpr ⟨.fin balance, .fin 5, ?_, ?_, hfresh.limit, ?_, ?_⟩
  · rw [hfresh.balance]
    rfl
  · rw [F64.zero_def, F64.fin_le_fin, not_le]
    exact hbalance
  · rw [F64.div_fin (by norm_num), F64.mul_fin, F64.zero_def, F64.fin_le_fin, not_le]
    linarith
  · have hpl : todayPl (queryRow none (some (.fin (sumColumn data.realizedPl)))) = .fin 0 := by
      rw [hfresh.pl]
      rfl
    rw [workerLoss] at hloss
    show ¬ todayPl (queryRow none _) - _ < _
    rw [hpl, hloss, F64.div_fin (by norm_num), F64.mul_fin, F64.sub_fin, F64.neg_fin, F64.fin_lt_fin,
      not_lt]
    linarith

/-- A computed lot keeps to one percent of the balance exactly where it is the minimum or the
maximum allows it: the balance is below 1.005 times the distance to the stop, or at least a thousand
million times. -/
theorem respectsRisk_iff (signal : Signal) (account : MT5Account) {entry stop balance : ℚ}
    (hentry : signal.entryPrice = some entry) (hstop : signal.stopLoss = some stop)
    (hbalance : account.balanceCache = some balance) (hentryPos : 0 < entry) (hstopPos : 0 < stop)
    (hbalancePos : 0 < balance) (hne : entry ≠ stop) (hentryPlaces : EightPlaces entry)
    (hstopPlaces : EightPlaces stop) :
    RespectsRisk signal account balance ↔
      balance < 201 / 200 * |entry - stop| ∨ 10 ^ 9 * |entry - stop| ≤ balance := by
  have hdistance : 0 < |entry - stop| := abs_pos.mpr (sub_ne_zero.mpr hne)
  have hlot : jobLot none signal account =
      normalizeLot (balance / 100 / |entry - stop|) (1 / 100) 100 (1 / 100) := by
    rw [jobLot, riskLot_eq hentry hstop hbalance hentryPos hstopPos hbalancePos hne]
  have hloss : ∀ lot, workerLoss (livePayload signal account lot) =
      potentialLoss (.fin lot) (.fin entry) (.fin stop) := by
    intro lot
    rw [workerLoss, floatField_lot, floatField_entry account lot hentry hentryPos,
      floatField_stop account lot hstop hstopPos]
  have hmin : balance / 100 / |entry - stop| < 201 / 20000 ↔
      balance < 201 / 200 * |entry - stop| := by
    rw [div_lt_iff₀ hdistance, div_lt_iff₀ (by norm_num)]
    ring_nf
  have hmax : 10000000 ≤ balance / 100 / |entry - stop| ↔ 10 ^ 9 * |entry - stop| ≤ balance := by
    rw [le_div_iff₀ hdistance, le_div_iff₀ (by norm_num)]
    ring_nf
  rw [← hmin, ← hmax, RespectsRisk, hlot, normalizeLot_eq_min]
  constructor
  · rintro (hbelow | ⟨hkept, -⟩)
    · exact Or.inl hbelow
    · by_contra hbetween
      rw [not_or, not_lt, not_le] at hbetween
      have hexceeds := lt_normalizeLot hbetween.1 hbetween.2
      have hlotPos : 0 < normalizeLot (balance / 100 / |entry - stop|) (1 / 100) 100 (1 / 100) := by
        linarith [hbetween.1]
      obtain ⟨loss, heq, hle⟩ := potentialLoss_fin
        (normalizeLot (balance / 100 / |entry - stop|) (1 / 100) 100 (1 / 100)) entry stop
      rw [hloss, heq, F64.fin_le_fin] at hkept
      rw [reckonedLoss, if_pos ⟨hlotPos, hentryPos, hstopPos⟩] at hle
      have hproduct := mul_lt_mul_of_pos_right hexceeds hdistance
      rw [div_mul_cancel₀ _ hdistance.ne'] at hproduct
      linarith
  · rintro (hbelow | habove)
    · exact Or.inl hbelow
    · right
      rw [normalizeLot_of_large (by linarith)]
      have hplaces := distance_of_eightPlaces hentryPlaces hstopPlaces hne
      have hcent : 1 / 100 ≤ 100 * 100000 * |entry - stop| := by
        norm_num at hplaces
        linarith
      have hestimate : workerLoss (livePayload signal account 100) =
          .fin (100 * 100000 * |entry - stop|) := by
        rw [hloss, potentialLoss_of_cent (by norm_num) hentryPos hstopPos hcent]
      have hle : 100 * 100000 * |entry - stop| ≤ balance / 100 := by
        rw [le_div_iff₀ hdistance] at habove
        linarith
      refine ⟨?_, fun cfg data hfresh => dailyDrawdown_of_freshDay hbalancePos hfresh hestimate hle⟩
      rw [hestimate, F64.fin_le_fin]
      exact hle

/-- On twenty millions the largest lot risks less than one percent. -/
theorem respectsRisk_iff_nearTarget :
    RespectsRisk nearTarget { demoAccount with balanceCache := some 20000000 } 20000000 :=
  (respectsRisk_iff nearTarget { demoAccount with balanceCache := some 20000000 } rfl rfl rfl
    (by norm_num) (by norm_num) (by norm_num) (by norm_num) (by with_unfolding_all decide)
    (by with_unfolding_all decide)).mpr (Or.inr (by norm_num [abs_of_pos]))

/-- A hundredth of a unit from entry to stop and a balance of 100000: the lot is 100, and the worker
expects a loss of 100000. -/
theorem computed_lot_exceeds_risk :
    ¬ ∀ (signal : Signal) (account : MT5Account) (entry stop balance : ℚ),
      signal.entryPrice = some entry → signal.stopLoss = some stop →
      account.balanceCache = some balance → 0 < entry → 0 < stop → 0 < balance → entry ≠ stop →
      RespectsRisk signal account balance := by
  intro h
  have hlot : jobLot none nearTarget demoAccount = 100 := by with_unfolding_all decide
  have hloss : workerLoss (livePayload nearTarget demoAccount 100) = .fin 100000 := by
    with_unfolding_all decide
  have hrisk := h nearTarget demoAccount _ _ _ rfl rfl rfl (by norm_num) (by norm_num)
    (by norm_num) (by norm_num)
  rw [RespectsRisk, hlot, hloss] at hrisk
  rcases hrisk with hmin | ⟨hkept, -⟩
  · norm_num at hmin
  · rw [F64.fin_le_fin] at hkept
    norm_num at hkept

end SphereFx.Api
