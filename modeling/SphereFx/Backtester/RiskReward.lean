import SphereFx.Backtester.Simulator

/-!
# Risk and reward in exact arithmetic

A signal with finite prices is a position: a side, an adjusted entry, a stop and perhaps a first
target. The simulator's trade has the outcome and the risk-reward of the position. A sell that reaches
its target divides by `entry - stop`, which is negative for it, so its win is booked as a loss.
-/

namespace SphereFx.Backtester

/-- What of a signal decides its trade. -/
structure Position where
  buys : Bool
  entry : ℚ
  stop : ℚ
  target : Option ℚ
  deriving DecidableEq

namespace Position

/-- The first target lies on the profit side of the entry. -/
def targetAhead (p : Position) : Bool :=
  p.target.any fun tp => if p.buys then decide (p.entry < tp) else decide (tp < p.entry)

/-- The stop lies on the loss side of the entry. -/
def stopBehind (p : Position) : Bool :=
  if p.buys then decide (p.stop < p.entry) else decide (p.entry < p.stop)

def profit (p : Position) (tp : ℚ) : ℚ := if p.buys then tp - p.entry else p.entry - tp

def outcome (p : Position) : Outcome :=
  if p.targetAhead then .tpHit else if p.stopBehind then .slHit else .stillOpen

/-- The unscaled risk-reward, with the divisor of the code. -/
def rr (p : Position) : ℚ :=
  if p.targetAhead then p.profit (p.target.getD 0) / (p.entry - p.stop)
  else if p.stopBehind then -1 else 0

def exitPrice (p : Position) : ℚ :=
  if p.targetAhead then p.target.getD 0 else if p.stopBehind then p.stop else p.entry

theorem profit_pos {p : Position} (h : p.targetAhead = true) : 0 < p.profit (p.target.getD 0) := by
  obtain ⟨buys, entry, stop, target⟩ := p
  cases target with
  | none => cases h
  | some tp =>
      cases buys with
      | true => exact sub_pos.mpr (of_decide_eq_true h)
      | false => exact sub_pos.mpr (of_decide_eq_true h)

/-- A target that is reached pays by the sign of `entry - stop`. -/
theorem rr_neg_iff (p : Position) : p.rr < 0 ↔
    if p.targetAhead then p.entry < p.stop else p.stopBehind = true := by
  unfold rr
  split
  · rename_i hahead
    have hprofit := profit_pos hahead
    rw [div_neg_iff]
    constructor
    · rintro (⟨-, h⟩ | ⟨h, -⟩)
      · exact sub_neg.mp h
      · exact absurd hprofit h.not_gt
    · exact fun h => Or.inl ⟨hprofit, sub_neg.mpr h⟩
  · split
    · rename_i hbehind
      exact ⟨fun _ => hbehind, fun _ => by norm_num⟩
    · rename_i hbehind
      exact ⟨fun h => absurd h (lt_irrefl 0), fun h => absurd h hbehind⟩

theorem rr_pos_iff (p : Position) : 0 < p.rr ↔ p.targetAhead = true ∧ p.stop < p.entry := by
  unfold rr
  split
  · rename_i hahead
    have hprofit := profit_pos hahead
    rw [div_pos_iff]
    constructor
    · rintro (⟨-, h⟩ | ⟨h, -⟩)
      · exact ⟨hahead, sub_pos.mp h⟩
      · exact absurd hprofit h.not_gt
    · exact fun h => Or.inl ⟨hprofit, sub_pos.mpr h.2⟩
  · rename_i hahead
    constructor
    · intro h
      split at h
      · exact absurd h (by norm_num)
      · exact absurd h (lt_irrefl 0)
    · rintro ⟨h, -⟩
      exact absurd h hahead

end Position

/-! ### The position of a signal -/

/-- The signal has the prices of the position. -/
structure Signal.At (cfg : Config) (sig : Signal) (p : Position) : Prop where
  buys : p.buys = decide (sig.action = "BUY")
  entry : adjustedEntry cfg sig = .fin p.entry
  stop : sig.stopLoss = .fin p.stop
  target : sig.takeProfit.head? = p.target.map F64.fin

def Signal.isFinite (sig : Signal) : Bool :=
  sig.entryPrice.isFinite && sig.stopLoss.isFinite && sig.takeProfit.all F64.isFinite

theorem isFinite_adjustedEntry {cfg : Config} {sig : Signal} (hcfg : cfg.spreadPips.isFinite = true)
    (hsig : sig.isFinite = true) : (adjustedEntry cfg sig).isFinite = true := by
  rw [Signal.isFinite, Bool.and_eq_true, Bool.and_eq_true] at hsig
  have hspread : (cfg.spreadPips / .fin 10000).isFinite = true := by
    apply F64.isFinite_div hcfg rfl
    rw [F64.zero_def]
    intro h
    exact absurd (F64.fin.inj h) (by norm_num)
  unfold adjustedEntry
  split
  · exact F64.isFinite_add hsig.1.1 hspread
  · exact F64.isFinite_sub hsig.1.1 hspread

theorem exists_target {takeProfit : List F64} (h : takeProfit.all F64.isFinite = true) :
    ∃ target : Option ℚ, takeProfit.head? = target.map F64.fin := by
  cases takeProfit with
  | nil => exact ⟨none, rfl⟩
  | cons tp rest =>
      rw [List.all_cons, Bool.and_eq_true] at h
      obtain ⟨q, rfl⟩ := F64.isFinite_iff.mp h.1
      exact ⟨some q, rfl⟩

theorem Signal.exists_at {cfg : Config} {sig : Signal} (hcfg : cfg.spreadPips.isFinite = true)
    (hsig : sig.isFinite = true) : ∃ p, sig.At cfg p := by
  obtain ⟨entry, hentry⟩ := F64.isFinite_iff.mp (isFinite_adjustedEntry hcfg hsig)
  rw [Signal.isFinite, Bool.and_eq_true, Bool.and_eq_true] at hsig
  obtain ⟨⟨-, hstop⟩, htargets⟩ := hsig
  obtain ⟨stop, hstop⟩ := F64.isFinite_iff.mp hstop
  obtain ⟨target, htarget⟩ := exists_target htargets
  exact ⟨⟨decide (sig.action = "BUY"), entry, stop, target⟩, rfl, hentry, hstop, htarget⟩

theorem targets_at {sig : Signal} {target : Option ℚ}
    (h : sig.takeProfit.head? = target.map F64.fin) :
    sig.takeProfit = [] ∧ target = none ∨
      ∃ tp rest, sig.takeProfit = .fin tp :: rest ∧ target = some tp := by
  cases htargets : sig.takeProfit with
  | nil =>
      rw [htargets] at h
      exact Or.inl ⟨rfl, Option.map_eq_none_iff.mp h.symm⟩
  | cons first rest =>
      rw [htargets] at h
      obtain ⟨tp, htp, rfl⟩ := Option.map_eq_some_iff.mp h.symm
      exact Or.inr ⟨tp, rest, rfl, htp⟩

theorem stopExit_at {stop num risk : ℚ} (hrisk : risk ≠ 0) (hnum : num = risk ∨ num = -risk) :
    stopExit (.fin stop) (.fin num / .fin risk) = ⟨.fin stop, .slHit, .fin (-1)⟩ := by
  rw [F64.div_fin hrisk, stopExit, F64.zero_def, F64.neg_fin]
  simp only [F64.fin_lt_fin]
  rcases hnum with rfl | rfl
  · rw [div_self hrisk, if_pos one_pos]
  · rw [neg_div, div_self hrisk, if_neg (by norm_num)]

theorem stopped_eq {p : Position} (h : p.targetAhead = false) :
    (if p.stopBehind = true then ⟨.fin p.stop, .slHit, .fin (-1)⟩ else openExit (.fin p.entry)) =
      (⟨.fin p.exitPrice, p.outcome, .fin p.rr⟩ : Exit) := by
  simp only [Position.exitPrice, Position.outcome, Position.rr, h, Bool.false_eq_true, if_false]
  split
  · rfl
  · rfl

theorem reached_eq {p : Position} {tp : ℚ} (hrisk : p.entry ≠ p.stop) (htarget : p.target = some tp)
    (h : p.targetAhead = true) :
    ⟨.fin tp, .tpHit, .fin (p.profit tp) / .fin (p.entry - p.stop)⟩ =
      (⟨.fin p.exitPrice, p.outcome, .fin p.rr⟩ : Exit) := by
  rw [F64.div_fin (sub_ne_zero.mpr hrisk)]
  simp only [Position.exitPrice, Position.outcome, Position.rr, h, if_true, htarget,
    Option.getD_some]

private theorem buyExit_at {sig : Signal} {entry stop : ℚ} {target : Option ℚ}
    (hstop : sig.stopLoss = .fin stop) (htarget : sig.takeProfit.head? = target.map F64.fin)
    (hrisk : entry ≠ stop) : buyExit (.fin entry) sig =
      ⟨.fin (Position.mk true entry stop target).exitPrice, (Position.mk true entry stop target).outcome,
        .fin (Position.mk true entry stop target).rr⟩ := by
  have hstopped : (if sig.stopLoss < .fin entry then
      stopExit sig.stopLoss ((sig.stopLoss - .fin entry) / (.fin entry - sig.stopLoss))
      else openExit (.fin entry)) =
      if (Position.mk true entry stop target).stopBehind = true then ⟨.fin stop, .slHit, .fin (-1)⟩
      else openExit (.fin entry) := by
    rw [hstop, F64.sub_fin, F64.sub_fin,
      stopExit_at (sub_ne_zero.mpr hrisk) (Or.inr (neg_sub entry stop).symm)]
    simp only [F64.fin_lt_fin, Position.stopBehind, if_true, decide_eq_true_eq]
  unfold buyExit
  rw [hstopped]
  rcases targets_at htarget with ⟨hnone, rfl⟩ | ⟨tp, rest, hsome, rfl⟩
  · rw [hnone]
    exact stopped_eq rfl
  · rw [hsome, hstop]
    by_cases hahead : entry < tp
    · simp only [F64.fin_lt_fin, if_pos hahead, F64.sub_fin]
      exact @reached_eq ⟨true, entry, stop, some tp⟩ tp hrisk rfl (decide_eq_true hahead)
    · simp only [F64.fin_lt_fin, if_neg hahead]
      exact stopped_eq (decide_eq_false hahead)

private theorem sellExit_at {sig : Signal} {entry stop : ℚ} {target : Option ℚ}
    (hstop : sig.stopLoss = .fin stop) (htarget : sig.takeProfit.head? = target.map F64.fin)
    (hrisk : entry ≠ stop) : sellExit (.fin entry) sig =
      ⟨.fin (Position.mk false entry stop target).exitPrice,
        (Position.mk false entry stop target).outcome, .fin (Position.mk false entry stop target).rr⟩ := by
  have hstopped : (if .fin entry < sig.stopLoss then
      stopExit sig.stopLoss ((.fin entry - sig.stopLoss) / (.fin entry - sig.stopLoss))
      else openExit (.fin entry)) =
      if (Position.mk false entry stop target).stopBehind = true then ⟨.fin stop, .slHit, .fin (-1)⟩
      else openExit (.fin entry) := by
    rw [hstop, F64.sub_fin, stopExit_at (sub_ne_zero.mpr hrisk) (Or.inl rfl)]
    simp only [F64.fin_lt_fin, Position.stopBehind, Bool.false_eq_true, if_false, decide_eq_true_eq]
  unfold sellExit
  rw [hstopped]
  rcases targets_at htarget with ⟨hnone, rfl⟩ | ⟨tp, rest, hsome, rfl⟩
  · rw [hnone]
    exact stopped_eq rfl
  · rw [hsome, hstop]
    by_cases hahead : tp < entry
    · simp only [F64.fin_lt_fin, if_pos hahead, F64.sub_fin]
      exact @reached_eq ⟨false, entry, stop, some tp⟩ tp hrisk rfl (decide_eq_true hahead)
    · simp only [F64.fin_lt_fin, if_neg hahead]
      exact stopped_eq (decide_eq_false hahead)

/-- The simulated trade of a signal is the one of its position. -/
theorem simulateTrade_at {cfg : Config} {sig : Signal} {p : Position} {factor : ℚ}
    (h : sig.At cfg p) (hfactor : cfg.defaultRR = .fin factor) (hrisk : p.entry ≠ p.stop) :
    simulateTrade cfg sig = ⟨sig.id, sig.symbol, sig.action, .fin p.entry, .fin p.exitPrice,
      .fin (p.rr * factor / 2), p.outcome⟩ := by
  obtain ⟨buys, entry, stop, target⟩ := p
  obtain ⟨hbuys, hentry, hstop, htarget⟩ := h
  have hscaled : ∀ q : ℚ, F64.fin q * .fin factor / .fin 2 = .fin (q * factor / 2) := by
    intro q
    rw [F64.mul_fin, F64.div_fin two_ne_zero]
  simp only [simulateTrade, hentry, hfactor]
  by_cases hbuy : sig.action = "BUY"
  · have hside : buys = true := hbuys.trans (decide_eq_true hbuy)
    subst hside
    simp only [if_pos hbuy, buyExit_at hstop htarget hrisk, hscaled]
  · have hside : buys = false := hbuys.trans (decide_eq_false hbuy)
    subst hside
    simp only [if_neg hbuy, sellExit_at hstop htarget hrisk, hscaled]

/-! ### Which side a signal's prices are on -/

/-- Finite settings. -/
structure Config.Finite (cfg : Config) : Prop where
  rr : cfg.defaultRR.isFinite = true
  spread : cfg.spreadPips.isFinite = true

/-- Finite prices and a stop that is not the adjusted entry. -/
structure Signal.Sound (cfg : Config) (sig : Signal) : Prop where
  finite : sig.isFinite = true
  risk : sig.stopLoss ≠ adjustedEntry cfg sig

/-- The first target lies on the profit side of the adjusted entry. -/
def Signal.TargetAhead (cfg : Config) (sig : Signal) : Prop :=
  ∃ tp, sig.takeProfit.head? = some tp ∧
    if sig.action = "BUY" then adjustedEntry cfg sig < tp else tp < adjustedEntry cfg sig

/-- The stop lies on the loss side of the adjusted entry. -/
def Signal.StopBehind (cfg : Config) (sig : Signal) : Prop :=
  if sig.action = "BUY" then sig.stopLoss < adjustedEntry cfg sig
  else adjustedEntry cfg sig < sig.stopLoss

instance (cfg : Config) (sig : Signal) : Decidable (sig.StopBehind cfg) :=
  inferInstanceAs (Decidable (if sig.action = "BUY" then sig.stopLoss < adjustedEntry cfg sig
    else adjustedEntry cfg sig < sig.stopLoss))

section Sides

variable {cfg : Config} {sig : Signal} {p : Position}

theorem targetAhead_iff (hp : sig.At cfg p) : sig.TargetAhead cfg ↔ p.targetAhead = true := by
  rw [Signal.TargetAhead, hp.entry, hp.target, Position.targetAhead, hp.buys]
  cases p.target with
  | none => simp
  | some tp => by_cases hbuy : sig.action = "BUY" <;> simp [hbuy]

theorem stopBehind_iff (hp : sig.At cfg p) : sig.StopBehind cfg ↔ p.stopBehind = true := by
  rw [Signal.StopBehind, hp.entry, hp.stop, Position.stopBehind, hp.buys]
  by_cases hbuy : sig.action = "BUY" <;> simp [hbuy]

theorem Signal.Sound.simulated (hcfg : cfg.Finite) (h : sig.Sound cfg) :
    ∃ p factor, sig.At cfg p ∧ cfg.defaultRR = .fin factor ∧ p.entry ≠ p.stop ∧
      simulateTrade cfg sig = ⟨sig.id, sig.symbol, sig.action, .fin p.entry, .fin p.exitPrice,
        .fin (p.rr * (factor / 2)), p.outcome⟩ := by
  obtain ⟨p, hp⟩ := Signal.exists_at hcfg.spread h.finite
  obtain ⟨factor, hfactor⟩ := F64.isFinite_iff.mp hcfg.rr
  have hrisk : p.entry ≠ p.stop := by
    intro heq
    apply h.risk
    rw [hp.entry, hp.stop, heq]
  refine ⟨p, factor, hp, hfactor, hrisk, ?_⟩
  rw [simulateTrade_at hp hfactor hrisk, mul_div_assoc]

end Sides

end SphereFx.Backtester
