import SphereFx.Backtester.RiskReward

/-!
# The equity curve of a run

A run books the trade of every signal in the order of the sort, and its curve is the running total of
the settled ones. Wins rise and losses fall on it exactly when no sell reaches its target.
-/

namespace SphereFx.Backtester

/-! ### What the loop books -/

/-- The running totals of the settled trades. -/
def equityFrom : F64 → List Trade → List F64
  | _, [] => []
  | cumRR, trade :: rest =>
      let next := if trade.outcome = .stillOpen then cumRR else cumRR + trade.rrAchieved
      next :: equityFrom next rest

theorem foldl_record_trades (cfg : Config) (total : Nat) (signals : List Signal) (book : Book) :
    (signals.foldl (Book.record cfg total) book).trades =
      book.trades ++ signals.map (simulateTrade cfg) := by
  induction signals generalizing book with
  | nil => exact (List.append_nil _).symm
  | cons sig rest ih =>
      rw [List.foldl_cons, ih, List.map_cons, List.append_cons]
      rfl

private theorem foldl_record_equity (cfg : Config) (total : Nat) (signals : List Signal) (book : Book) :
    (signals.foldl (Book.record cfg total) book).equityPoints =
      book.equityPoints ++ equityFrom book.cumRR (signals.map (simulateTrade cfg)) := by
  induction signals generalizing book with
  | nil => exact (List.append_nil _).symm
  | cons sig rest ih =>
      rw [List.foldl_cons, ih, List.map_cons, equityFrom, List.append_cons]
      rfl

private theorem foldl_record_cumRR (cfg : Config) (total : Nat) (signals : List Signal) (book : Book) :
    (signals.foldl (Book.record cfg total) book).cumRR =
      (equityFrom book.cumRR (signals.map (simulateTrade cfg))).getLastD book.cumRR := by
  induction signals generalizing book with
  | nil => rfl
  | cons sig rest ih =>
      rw [List.foldl_cons, ih, List.map_cons, equityFrom, List.getLastD_cons]
      rfl

theorem foldl_record_count {cfg : Config} {total : Nat} (counter : Book → Nat) {outcome : Outcome}
    (hstep : ∀ book sig, counter (book.record cfg total sig) =
      if (simulateTrade cfg sig).outcome = outcome then counter book + 1 else counter book)
    (signals : List Signal) (book : Book) :
    counter (signals.foldl (Book.record cfg total) book) =
      counter book + (signals.map (simulateTrade cfg)).countP (·.outcome = outcome) := by
  induction signals generalizing book with
  | nil => rfl
  | cons sig rest ih =>
      rw [List.foldl_cons, ih, hstep, List.map_cons, List.countP_cons]
      simp only [decide_eq_true_eq]
      split <;> omega

private theorem foldl_record_logs {cfg : Config} {total : Nat} {signals : List Signal} {book : Book}
    (h : ∀ line ∈ book.logs, line.level = "INFO") :
    ∀ line ∈ (signals.foldl (Book.record cfg total) book).logs, line.level = "INFO" := by
  induction signals generalizing book with
  | nil => exact h
  | cons sig rest ih =>
      apply ih
      intro line hline
      simp only [Book.record] at hline
      split at hline
      · rcases List.mem_append.mp hline with hold | hnew
        · exact h line hold
        · rw [List.mem_singleton.mp hnew]
          rfl
      · exact h line hline

section Run

variable (env : RunEnv) (s : Simulator) (signals : List Signal)

theorem run_trades : (s.run env signals).1.trades =
    (env.sortByTimestamp signals).map (simulateTrade s.cfg) := by
  show (runBook s.cfg _ _).trades = _
  rw [runBook, foldl_record_trades]
  exact List.nil_append _

theorem run_equityCurve : (s.run env signals).1.equityCurve =
    equityFrom 0 ((env.sortByTimestamp signals).map (simulateTrade s.cfg)) := by
  show (runBook s.cfg _ _).equityPoints = _
  rw [runBook, foldl_record_equity]
  exact List.nil_append _

theorem run_winCount : (s.run env signals).1.winCount =
    (s.run env signals).1.trades.countP (·.outcome = .tpHit) := by
  rw [run_trades]
  show (runBook s.cfg _ _).wins = _
  rw [runBook, foldl_record_count Book.wins fun _ _ => rfl]
  exact Nat.zero_add _

theorem run_lossCount : (s.run env signals).1.lossCount =
    (s.run env signals).1.trades.countP (·.outcome = .slHit) := by
  rw [run_trades]
  show (runBook s.cfg _ _).losses = _
  rw [runBook, foldl_record_count Book.losses fun _ _ => rfl]
  exact Nat.zero_add _

theorem run_totalRR : (s.run env signals).1.totalRR = (s.run env signals).1.equityCurve.getLastD 0 := by
  rw [run_equityCurve]
  show (runBook s.cfg _ _).cumRR = _
  rw [runBook, foldl_record_cumRR]

theorem run_logs : ∀ line ∈ (s.run env signals).1.logs, line.level = "INFO" := by
  have hstart : ∀ line ∈ startLines s.cfg (s.runCounter + 1) (env.sortByTimestamp signals).length,
      line.level = "INFO" := by
    intro line hline
    rcases List.mem_cons.mp hline with rfl | hline
    · rfl
    · rw [List.mem_singleton.mp hline]
  intro line hline
  rcases List.mem_append.mp hline with hbook | hdone
  · exact foldl_record_logs hstart line hbook
  · rw [List.mem_singleton.mp hdone]
    rfl

end Run

/-! ### Finite curves -/

theorem stopped_of_stillOpen {c : Prop} [Decidable c] {stop rr entry : F64}
    (h : (if c then stopExit stop rr else openExit entry).outcome = .stillOpen) :
    (if c then stopExit stop rr else openExit entry).rr = 0 := by
  by_cases hc : c
  · rw [if_pos hc] at h
    cases h
  · rw [if_neg hc]
    rfl

theorem exit_of_stillOpen {entry : F64} {sig : Signal} :
    ((buyExit entry sig).outcome = .stillOpen → (buyExit entry sig).rr = 0) ∧
      ((sellExit entry sig).outcome = .stillOpen → (sellExit entry sig).rr = 0) := by
  unfold buyExit sellExit
  cases sig.takeProfit with
  | nil => exact ⟨stopped_of_stillOpen, stopped_of_stillOpen⟩
  | cons tp rest =>
      simp only
      constructor
      · by_cases htp : entry < tp
        · rw [if_pos htp]
          exact fun h => (by cases h)
        · rw [if_neg htp]
          exact stopped_of_stillOpen
      · by_cases htp : tp < entry
        · rw [if_pos htp]
          exact fun h => (by cases h)
        · rw [if_neg htp]
          exact stopped_of_stillOpen

/-- An open trade achieves zero, or with a special factor no number. -/
theorem rr_of_stillOpen {cfg : Config} {sig : Signal}
    (hopen : (simulateTrade cfg sig).outcome = .stillOpen)
    (hfinite : (simulateTrade cfg sig).rrAchieved.isFinite = true) :
    (simulateTrade cfg sig).rrAchieved = 0 := by
  obtain ⟨ending, hending, houtcome, hrr⟩ : ∃ ending : Exit,
      (ending.outcome = .stillOpen → ending.rr = 0) ∧
        (simulateTrade cfg sig).outcome = ending.outcome ∧
        (simulateTrade cfg sig).rrAchieved = ending.rr * cfg.defaultRR / .fin 2 := by
    refine ⟨_, ?_, rfl, rfl⟩
    split
    · exact exit_of_stillOpen.1
    · exact exit_of_stillOpen.2
  rw [hrr, hending (houtcome.symm.trans hopen)] at hfinite ⊢
  cases hfactor : cfg.defaultRR with
  | fin factor =>
      rw [F64.zero_def, F64.mul_fin, F64.div_fin two_ne_zero, zero_mul, zero_div]
  | inf negative =>
      rw [hfactor] at hfinite
      cases hfinite
  | nan =>
      rw [hfactor] at hfinite
      cases hfinite

theorem isFinite_equityFrom {trades : List Trade} (h : ∀ t ∈ trades, t.rrAchieved.isFinite = true)
    {cumRR : F64} (hcum : cumRR.isFinite = true) :
    ∀ point ∈ equityFrom cumRR trades, point.isFinite = true := by
  induction trades generalizing cumRR with
  | nil => exact List.forall_mem_nil _
  | cons trade rest ih =>
      obtain ⟨htrade, hrest⟩ := List.forall_mem_cons.mp h
      have hnext : (if trade.outcome = .stillOpen then cumRR
          else cumRR + trade.rrAchieved).isFinite = true := by
        split
        · exact hcum
        · exact F64.isFinite_add hcum htrade
      exact List.forall_mem_cons.mpr ⟨hnext, ih hrest hnext⟩

/-- A curve of finite trades is the running total of what they achieve. -/
theorem equityFrom_fin {trades : List Trade} {rrs : List ℚ}
    (hrrs : trades.map Trade.rrAchieved = rrs.map .fin)
    (hopen : ∀ t ∈ trades, t.outcome = .stillOpen → t.rrAchieved = 0) (c : ℚ) :
    .fin c :: equityFrom (.fin c) trades = (rrs.scanl (· + ·) c).map F64.fin := by
  induction trades generalizing rrs c with
  | nil =>
      obtain rfl := List.map_eq_nil_iff.mp hrrs.symm
      rw [List.scanl_nil]
      rfl
  | cons trade rest ih =>
      obtain ⟨r, more, rfl, hr, hmore⟩ := List.map_eq_cons_iff.mp hrrs.symm
      obtain ⟨hopenFirst, hopenRest⟩ := List.forall_mem_cons.mp hopen
      have hnext : (if trade.outcome = .stillOpen then F64.fin c else .fin c + trade.rrAchieved) =
          .fin (c + r) := by
        split
        · rename_i houtcome
          have hzero : F64.fin r = .fin 0 := hr.trans (hopenFirst houtcome)
          rw [F64.fin.inj hzero, add_zero]
        · rw [← hr, F64.add_fin]
      rw [equityFrom, List.scanl_cons, List.map_cons, ← ih hmore.symm hopenRest]
      simp only [hnext]

/-! ### Wins and losses on the curve -/

/-- Positive for a win, negative for a loss, zero for an open trade. -/
def Trade.SignOfOutcome (trade : Trade) : Prop :=
  match trade.outcome with
  | .tpHit => 0 < trade.rrAchieved
  | .slHit => trade.rrAchieved < 0
  | .stillOpen => trade.rrAchieved = 0

/-- From a point before it, the curve rises at every win and falls at every loss. -/
def CurveFollows : F64 → List Trade → List F64 → Prop
  | _, [], [] => True
  | before, trade :: trades, point :: points =>
      (trade.outcome = .tpHit → before < point) ∧ (trade.outcome = .slHit → point < before) ∧
        CurveFollows point trades points
  | _, _, _ => False

private theorem curveFollows_iff {trades : List Trade} (hfinite : ∀ t ∈ trades, t.rrAchieved.isFinite = true)
    (hopen : ∀ t ∈ trades, t.outcome = .stillOpen → t.rrAchieved = 0) (c : ℚ) :
    CurveFollows (.fin c) trades (equityFrom (.fin c) trades) ↔ ∀ t ∈ trades, t.SignOfOutcome := by
  induction trades generalizing c with
  | nil => exact ⟨fun _ t ht => (by cases ht), fun _ => trivial⟩
  | cons trade rest ih =>
      obtain ⟨q, hq⟩ := F64.isFinite_iff.mp (hfinite trade List.mem_cons_self)
      have hrest := ih (fun t ht => hfinite t (List.mem_cons_of_mem _ ht))
        (fun t ht => hopen t (List.mem_cons_of_mem _ ht))
      have hzero := hopen trade List.mem_cons_self
      rw [equityFrom, CurveFollows, List.forall_mem_cons, Trade.SignOfOutcome]
      cases houtcome : trade.outcome with
      | tpHit => simp [hq, hrest, F64.zero_def]
      | slHit => simp [hq, hrest, F64.zero_def]
      | stillOpen => simp [hrest, hzero houtcome]

/-! ### When the sign is right -/

/-- A buy or a sell with finite prices and its stop strictly on the loss side of the adjusted entry. -/
structure Signal.Admissible (cfg : Config) (sig : Signal) : Prop where
  side : sig.action = "BUY" ∨ sig.action = "SELL"
  finite : sig.isFinite = true
  stop : sig.StopBehind cfg

/-- A sell whose first target lies below its adjusted entry. -/
def Signal.ReachesShortTarget (cfg : Config) (sig : Signal) : Prop :=
  sig.action ≠ "BUY" ∧ ∃ tp, sig.takeProfit.head? = some tp ∧ tp < adjustedEntry cfg sig

/-- Finite settings with a positive scale of the risk-reward. -/
structure Config.Exact (cfg : Config) : Prop extends cfg.Finite where
  positive : 0 < cfg.defaultRR

section Sign

variable {cfg : Config} {sig : Signal} {p : Position}

theorem Position.risk_of_stopBehind (h : p.stopBehind = true) :
    if p.buys then p.stop < p.entry else p.entry < p.stop := by
  unfold Position.stopBehind at h
  split at h
  · rename_i hbuys
    rw [if_pos hbuys]
    exact of_decide_eq_true h
  · rename_i hbuys
    rw [if_neg hbuys]
    exact of_decide_eq_true h

theorem Signal.Admissible.sound (h : sig.Admissible cfg) : sig.Sound cfg := by
  refine ⟨h.finite, ?_⟩
  have hirrefl : ¬ adjustedEntry cfg sig < adjustedEntry cfg sig := by
    cases adjustedEntry cfg sig with
    | fin q => simp
    | inf negative => cases negative <;> exact fun h => (by cases h)
    | nan => exact F64.not_lt_nan _
  intro heq
  have hstop := h.stop
  rw [Signal.StopBehind, heq, ite_self] at hstop
  exact hirrefl hstop

private theorem reachesShortTarget_iff (hp : sig.At cfg p) :
    sig.ReachesShortTarget cfg ↔ p.buys = false ∧ p.targetAhead = true := by
  rw [Signal.ReachesShortTarget, hp.entry, hp.target, hp.buys, decide_eq_false_iff_not]
  refine and_congr_right fun hbuy => ?_
  have hbuys : p.buys = false := hp.buys.trans (decide_eq_false hbuy)
  rw [Position.targetAhead, hbuys]
  cases p.target with
  | none => simp
  | some tp => simp

/-- The sign of a position whose stop is on its loss side. -/
theorem Position.sign_iff (h : p.stopBehind = true) :
    (match p.outcome with
      | .tpHit => 0 < p.rr
      | .slHit => p.rr < 0
      | .stillOpen => p.rr = 0) ↔ ¬ (p.buys = false ∧ p.targetAhead = true) := by
  have hrisk := Position.risk_of_stopBehind h
  cases hahead : p.targetAhead with
  | false =>
      have houtcome : p.outcome = .slHit := by
        rw [Position.outcome, hahead, h]
        rfl
      have hrr : p.rr < 0 := by
        rw [Position.rr_neg_iff, hahead, if_neg Bool.false_ne_true]
        exact h
      simp [houtcome, hrr]
  | true =>
      have houtcome : p.outcome = .tpHit := by
        rw [Position.outcome, hahead]
        rfl
      rw [houtcome]
      simp only [Position.rr_pos_iff, hahead, true_and, and_true, Bool.not_eq_false]
      cases hbuys : p.buys with
      | true =>
          rw [hbuys, if_pos rfl] at hrisk
          simp [hrisk]
      | false =>
          rw [hbuys, if_neg Bool.false_ne_true] at hrisk
          simp [hrisk.le]

theorem signOfOutcome_iff (hcfg : cfg.Exact) (h : sig.Admissible cfg) :
    (simulateTrade cfg sig).SignOfOutcome ↔ ¬ sig.ReachesShortTarget cfg := by
  obtain ⟨p, factor, hp, hfactor, -, htrade⟩ := h.sound.simulated hcfg.toFinite
  have hbehind := (stopBehind_iff hp).mp h.stop
  have hpositive := hcfg.positive
  rw [hfactor, F64.zero_def, F64.fin_lt_fin] at hpositive
  have hhalf : 0 < factor / 2 := half_pos hpositive
  have hneg : p.rr * (factor / 2) < 0 ↔ p.rr < 0 := by
    constructor
    · intro h
      by_contra hge
      exact absurd (mul_nonneg (not_lt.mp hge) hhalf.le) h.not_ge
    · exact fun h => mul_neg_of_neg_of_pos h hhalf
  rw [htrade, reachesShortTarget_iff hp, ← Position.sign_iff hbehind, Trade.SignOfOutcome]
  cases p.outcome with
  | tpHit => simp [F64.zero_def, mul_pos_iff_of_pos_right hhalf]
  | slHit => simp [F64.zero_def, hneg]
  | stillOpen => simp [F64.zero_def, hpositive.ne']

theorem not_stillOpen (hcfg : cfg.Exact) (h : sig.Admissible cfg) :
    (simulateTrade cfg sig).rrAchieved.isFinite = true ∧
      (simulateTrade cfg sig).outcome ≠ .stillOpen := by
  obtain ⟨p, factor, hp, -, -, htrade⟩ := h.sound.simulated hcfg.toFinite
  have hbehind := (stopBehind_iff hp).mp h.stop
  rw [htrade]
  refine ⟨rfl, ?_⟩
  show p.outcome ≠ .stillOpen
  rw [Position.outcome, hbehind]
  split <;> exact fun h => (by cases h)

/-- Outcome and risk-reward agree in sign, trade by trade and along the curve of a run, exactly where
no sell reaches its target. -/
theorem rr_sign_iff (hcfg : cfg.Exact) :
    (∀ sig : Signal, sig.Admissible cfg →
      ((simulateTrade cfg sig).SignOfOutcome ↔ ¬ sig.ReachesShortTarget cfg)) ∧
    ∀ (env : RunEnv) (s : Simulator) (signals : List Signal), s.cfg = cfg →
      (env.sortByTimestamp signals).Perm signals → (∀ sig ∈ signals, sig.Admissible cfg) →
      (CurveFollows 0 (s.run env signals).1.trades (s.run env signals).1.equityCurve ↔
        ∀ sig ∈ signals, ¬ sig.ReachesShortTarget cfg) := by
  refine ⟨fun sig h => signOfOutcome_iff hcfg h, ?_⟩
  rintro env s signals rfl hperm hall
  have hsorted : ∀ sig ∈ env.sortByTimestamp signals, sig.Admissible s.cfg :=
    fun sig hsig => hall sig (hperm.mem_iff.mp hsig)
  rw [run_trades, run_equityCurve, F64.zero_def, curveFollows_iff, List.forall_mem_map]
  · constructor
    · intro h sig hsig
      exact (signOfOutcome_iff hcfg (hall sig hsig)).mp (h sig (hperm.mem_iff.mpr hsig))
    · intro h sig hsig
      exact (signOfOutcome_iff hcfg (hsorted sig hsig)).mpr (h sig (hperm.mem_iff.mp hsig))
  · rw [List.forall_mem_map]
    exact fun sig hsig => (not_stillOpen hcfg (hsorted sig hsig)).1
  · rw [List.forall_mem_map]
    exact fun sig hsig hopen => absurd hopen (not_stillOpen hcfg (hsorted sig hsig)).2

end Sign

/-! ### A sell that reaches its target -/

def defaultConfig : Config := ⟨.fin 2, .fin (3 / 2), "sequential"⟩

/-- A sell of EURUSD at 1.1 with its stop at 1.11 and a target at 1.09. -/
def shortSignal : Signal :=
  ⟨1, "EURUSD", "SELL", "LIMIT", .fin (11 / 10), .fin (111 / 100), [.fin (109 / 100)], 0, "demo", 80⟩

/-- The buy with its stop and target the other way round. -/
def longSignal : Signal :=
  ⟨2, "EURUSD", "BUY", "LIMIT", .fin (11 / 10), .fin (109 / 100), [.fin (111 / 100)], 1, "demo", 80⟩

def plainEnv : RunEnv := ⟨id, 0, 1⟩

theorem short_win_is_negative : shortSignal.Admissible defaultConfig ∧
    (simulateTrade defaultConfig shortSignal).outcome = .tpHit ∧
    (simulateTrade defaultConfig shortSignal).rrAchieved < 0 ∧
    ¬ CurveFollows 0 ((newSimulator defaultConfig).run plainEnv [shortSignal]).1.trades
      ((newSimulator defaultConfig).run plainEnv [shortSignal]).1.equityCurve := by
  refine ⟨⟨Or.inr rfl, by decide +kernel, by decide +kernel⟩, by decide +kernel, by decide +kernel, ?_⟩
  rintro ⟨hwin, -⟩
  exact absurd (hwin (by decide +kernel)) (by decide +kernel)

theorem rr_sign_iff_of_longSignal : (simulateTrade defaultConfig longSignal).SignOfOutcome ∧
    CurveFollows 0 ((newSimulator defaultConfig).run plainEnv [longSignal]).1.trades
      ((newSimulator defaultConfig).run plainEnv [longSignal]).1.equityCurve := by
  have hadmissible : longSignal.Admissible defaultConfig :=
    ⟨Or.inl rfl, by decide +kernel, by decide +kernel⟩
  have hlong : ¬ longSignal.ReachesShortTarget defaultConfig := fun h => h.1 rfl
  have hexact : defaultConfig.Exact := ⟨⟨rfl, rfl⟩, by decide +kernel⟩
  have hboth := rr_sign_iff hexact
  refine ⟨(hboth.1 longSignal hadmissible).mpr hlong,
    (hboth.2 plainEnv (newSimulator defaultConfig) [longSignal] rfl (List.Perm.refl _) ?_).mpr ?_⟩
  · exact List.forall_mem_singleton.mpr hadmissible
  · exact List.forall_mem_singleton.mpr hlong

end SphereFx.Backtester
