import SphereFx.Backtester.Equity
import SphereFx.Backtester.Server

/-!
# What a client sees of a backtest

The log lines of a run carry a progress, and `RunBacktest` streams them before the result. Any `Send`
may fail, and the call then ends with its error.
-/

namespace SphereFx.Backtester

/-- The loop of `Run` after some of the signals: two start lines, one line for every ten signals and
one for the last, none of which is ahead of the signals. -/
structure Progressing (total : Nat) (book : Book) : Prop where
  ascending : (book.logs.map LogLine.progress).Pairwise (· ≤ ·)
  reached : ∀ line ∈ book.logs,
    0 ≤ line.progress ∧ line.progress ≤ (book.trades.length * 100 / total : Nat)
  count : book.logs.length = 2 + book.trades.length / 10 +
    if book.trades.length = total ∧ book.trades.length % 10 ≠ 0 then 1 else 0

theorem pairwise_append_singleton {values : List Int} {v : Int} (h : values.Pairwise (· ≤ ·))
    (hv : ∀ w ∈ values, w ≤ v) : (values ++ [v]).Pairwise (· ≤ ·) := by
  rw [List.pairwise_append]
  exact ⟨h, List.pairwise_singleton _ _, fun w hw x hx => List.mem_singleton.mp hx ▸ hv w hw⟩

theorem Progressing.record {cfg : Config} {total : Nat} {book : Book} (h : Progressing total book)
    (hmore : book.trades.length < total) (sig : Signal) :
    Progressing total (book.record cfg total sig) := by
  have htrades : (book.record cfg total sig).trades.length = book.trades.length + 1 := by
    simp [Book.record]
  have hmono : book.trades.length * 100 / total ≤ (book.trades.length + 1) * 100 / total :=
    Nat.div_le_div_right (by omega)
  have hbefore : ∀ line ∈ book.logs, 0 ≤ line.progress ∧
      line.progress ≤ ((book.trades.length + 1) * 100 / total : Nat) := by
    intro line hline
    have := h.reached line hline
    omega
  have hcount := h.count
  rw [if_neg (by omega)] at hcount
  by_cases hline : (book.trades.length + 1) % 10 = 0 ∨ book.trades.length + 1 = total
  · obtain ⟨cumRR, hlogs⟩ : ∃ cumRR, (book.record cfg total sig).logs =
        book.logs ++ [progressLine (book.trades.length + 1) total cumRR] :=
      ⟨_, by rw [Book.record]; exact if_pos hline⟩
    refine ⟨?_, ?_, ?_⟩
    · rw [hlogs, List.map_append]
      apply pairwise_append_singleton h.ascending
      intro w hw
      obtain ⟨line, hmem, rfl⟩ := List.mem_map.mp hw
      exact (hbefore line hmem).2
    · rw [hlogs, htrades]
      intro line hmem
      rcases List.mem_append.mp hmem with hold | hnew
      · exact hbefore line hold
      · rw [List.mem_singleton.mp hnew]
        exact ⟨Int.natCast_nonneg _, le_refl _⟩
    · rw [hlogs, htrades, List.length_append, List.length_singleton, hcount]
      split <;> omega
  · have hlogs : (book.record cfg total sig).logs = book.logs := if_neg hline
    refine ⟨hlogs ▸ h.ascending, ?_, ?_⟩
    · rw [hlogs, htrades]
      exact hbefore
    · rw [hlogs, htrades, hcount]
      split <;> omega

theorem Progressing.records (cfg : Config) {total : Nat} (signals : List Signal) {book : Book}
    (h : Progressing total book) (hfit : book.trades.length + signals.length ≤ total) :
    Progressing total (signals.foldl (Book.record cfg total) book) := by
  induction signals generalizing book with
  | nil => exact h
  | cons sig rest ih =>
      rw [List.length_cons] at hfit
      apply ih (h.record (by omega) sig)
      have htrades : (book.record cfg total sig).trades.length = book.trades.length + 1 := by
        simp [Book.record]
      omega

/-- The lines of a whole run. -/
private theorem progress_of_run (env : RunEnv) (s : Simulator) (signals : List Signal)
    (hne : env.sortByTimestamp signals ≠ []) :
    ((s.run env signals).1.logs.map LogLine.progress).Pairwise (· ≤ ·) ∧
      (∀ line ∈ (s.run env signals).1.logs, 0 ≤ line.progress ∧ line.progress ≤ 100) ∧
      (s.run env signals).1.logs.length = 3 + ((env.sortByTimestamp signals).length + 9) / 10 := by
  have hpos := List.length_pos_iff.mpr hne
  have hstart : Progressing (env.sortByTimestamp signals).length
      ⟨[], [], 0, 0, 0, startLines s.cfg (s.runCounter + 1) (env.sortByTimestamp signals).length⟩ := by
    refine ⟨?_, ?_, ?_⟩
    · simp [startLines]
    · simp [startLines]
    · simp [startLines]
  have hbook := Progressing.records s.cfg (env.sortByTimestamp signals) hstart (by simp)
  have htrades : (runBook s.cfg (s.runCounter + 1) (env.sortByTimestamp signals)).trades.length =
      (env.sortByTimestamp signals).length := by
    rw [runBook, foldl_record_trades]
    simp
  have hdone : (env.sortByTimestamp signals).length * 100 / (env.sortByTimestamp signals).length = 100 :=
    Nat.mul_div_cancel_left 100 hpos
  have hlogs : ∃ winRate totalRR, (s.run env signals).1.logs =
      (runBook s.cfg (s.runCounter + 1) (env.sortByTimestamp signals)).logs ++
        [doneLine env winRate totalRR] := ⟨_, _, rfl⟩
  obtain ⟨winRate, totalRR, hlogs⟩ := hlogs
  change Progressing _ (runBook s.cfg (s.runCounter + 1) (env.sortByTimestamp signals)) at hbook
  have hreached := hbook.reached
  have hcount := hbook.count
  rw [htrades, hdone] at hreached
  rw [htrades] at hcount
  refine ⟨?_, ?_, ?_⟩
  · rw [hlogs, List.map_append]
    apply pairwise_append_singleton hbook.ascending
    intro w hw
    obtain ⟨line, hmem, rfl⟩ := List.mem_map.mp hw
    exact (hreached line hmem).2
  · rw [hlogs]
    intro line hmem
    rcases List.mem_append.mp hmem with hold | hnew
    · exact hreached line hold
    · rw [List.mem_singleton.mp hnew]
      exact ⟨Int.natCast_nonneg 100, le_refl _⟩
  · rw [hlogs, List.length_append, List.length_singleton, hcount]
    split <;> omega

/-! ### The stream -/

/-- Sending stops at the first line that fails, so that a beginning of the lines is sent. -/
theorem sendAll_prefix (sends : Sends) (sent lines : List BacktestLogLine) :
    ∃ k ≤ lines.length, (sendAll sends sent lines).1 = sent ++ lines.take k ∧
      ((sendAll sends sent lines).2 = none ↔ k = lines.length) := by
  induction lines generalizing sent with
  | nil => exact ⟨0, le_refl _, by simp [sendAll], by simp [sendAll]⟩
  | cons line rest ih =>
      cases hsend : sends sent.length with
      | some err => exact ⟨0, Nat.zero_le _, by simp [sendAll, hsend], by simp [sendAll, hsend]⟩
      | none =>
          obtain ⟨k, hk, hsent, hall⟩ := ih (sent ++ [line])
          refine ⟨k + 1, by simpa using hk, ?_, ?_⟩
          · simp only [sendAll, hsend, hsent, List.take_succ_cons, List.append_assoc,
              List.singleton_append]
          · simp only [sendAll, hsend, hall, List.length_cons]
            omega

/-- The lines that a call sends are a beginning of the log and one result line, the whole of it
exactly when the call ends without an error. -/
private theorem sent_prefix (codec : JsonCodec) (sends : Sends) (env : RunEnv) (sim : Simulator)
    (req : BacktestRequest) : ∃ message k,
      k ≤ (sim.run env (req.signals.map PbSignal.toSignal)).1.logs.length + 1 ∧
      (runBacktest codec sends env sim req).1.1 =
        ((sim.run env (req.signals.map PbSignal.toSignal)).1.logs.map LogLine.toPb ++
          [resultLine message]).take k ∧
      ((runBacktest codec sends env sim req).1.2 = none ↔
        k = (sim.run env (req.signals.map PbSignal.toSignal)).1.logs.length + 1) := by
  unfold runBacktest
  split
  · exact ⟨"", 0, Nat.zero_le _, rfl, by simp⟩
  · split
    · exact ⟨"", 0, Nat.zero_le _, rfl, by simp⟩
    · simp only
      generalize sim.run env (req.signals.map PbSignal.toSignal) = ran
      obtain ⟨k, hk, hsent, hall⟩ := sendAll_prefix sends [] (ran.1.logs.map LogLine.toPb)
      rw [List.length_map] at hk hall
      rw [List.nil_append] at hsent
      generalize sendAll sends [] (ran.1.logs.map LogLine.toPb) = outcome at hsent hall
      obtain ⟨sent, error⟩ := outcome
      simp only at hsent hall
      cases error with
      | some err =>
          have hshort : k ≠ ran.1.logs.length := fun h => nomatch hall.mpr h
          refine ⟨"", k, by omega, ?_, ?_⟩
          · rw [List.take_append_of_le_length (by rw [List.length_map]; omega)]
            exact hsent
          · simp only [reduceCtorEq, false_iff]
            omega
      | none =>
          obtain rfl := hall.mp rfl
          have hwhole : sent = ran.1.logs.map LogLine.toPb := by
            rw [hsent, List.take_of_length_le (by rw [List.length_map])]
          cases codec.marshal ran.1 with
          | error cause =>
              refine ⟨"", ran.1.logs.length, by omega, ?_, ?_⟩
              · rw [List.take_append_of_le_length (by rw [List.length_map])]
                exact hsent
              · simp
          | ok message =>
              obtain ⟨more, hmore, hsent', hall'⟩ := sendAll_prefix sends sent [resultLine message]
              rw [List.length_singleton] at hmore hall'
              refine ⟨message, ran.1.logs.length + more, by omega, ?_, ?_⟩
              · have hlength : ran.1.logs.length = (ran.1.logs.map LogLine.toPb).length := by
                  rw [List.length_map]
                rw [hlength, List.take_length_add_append]
                exact hwhole ▸ hsent'
              · rw [hall']
                omega

/-- Whatever becomes of the stream, the progress that a client sees never goes back and stays between
0 and 100. A run of `n` signals has two lines at the start, one for every ten signals begun and one at
the end, and the result follows them. The client has the result exactly when the call ends without an
error. -/
theorem stream_orderly (codec : JsonCodec) (sends : Sends) (env : RunEnv) (sim : Simulator)
    (req : BacktestRequest)
    (hsort : (env.sortByTimestamp (req.signals.map PbSignal.toSignal)).length = req.signals.length) :
    ((runBacktest codec sends env sim req).1.1.map BacktestLogLine.progress).Pairwise (· ≤ ·) ∧
      (∀ line ∈ (runBacktest codec sends env sim req).1.1, 0 ≤ line.progress ∧ line.progress ≤ 100) ∧
      (runBacktest codec sends env sim req).1.1.length ≤ 4 + (req.signals.length + 9) / 10 ∧
      ((runBacktest codec sends env sim req).1.2 = none ↔
        (runBacktest codec sends env sim req).1.1.length = 4 + (req.signals.length + 9) / 10) ∧
      ((runBacktest codec sends env sim req).1.2 = none ↔
        ∃ line ∈ (runBacktest codec sends env sim req).1.1, line.level = "RESULT") := by
  by_cases hsignals : req.signals = []
  · have hrefused : (runBacktest codec sends env sim req).1 = ([], some "no signals provided") := by
      rw [runBacktest, if_pos hsignals]
    rw [hrefused]
    simp [hsignals]
  · have hne : env.sortByTimestamp (req.signals.map PbSignal.toSignal) ≠ [] := by
      apply List.ne_nil_of_length_pos
      rw [hsort]
      exact List.length_pos_iff.mpr hsignals
    obtain ⟨hascending, hbounds, hlength⟩ := progress_of_run env sim _ hne
    rw [hsort] at hlength
    have hinfo := run_logs env sim (req.signals.map PbSignal.toSignal)
    obtain ⟨message, k, hk, hsent, hall⟩ := sent_prefix codec sends env sim req
    generalize (sim.run env (req.signals.map PbSignal.toSignal)).1.logs = logs at *
    have hprogress : (logs.map LogLine.toPb ++ [resultLine message]).map BacktestLogLine.progress =
        logs.map LogLine.progress ++ [100] := by
      simp [Function.comp_def, LogLine.toPb, resultLine]
    have hcount : (runBacktest codec sends env sim req).1.1.length = k := by
      rw [hsent, List.length_take, List.length_append, List.length_map, List.length_singleton]
      omega
    refine ⟨?_, ?_, by omega, by rw [hall, hcount, hlength]; omega, ?_⟩
    · rw [hsent, List.map_take, hprogress]
      apply List.Pairwise.take
      apply pairwise_append_singleton hascending
      intro w hw
      obtain ⟨line, hline, rfl⟩ := List.mem_map.mp hw
      exact (hbounds line hline).2
    · rw [hsent]
      intro line hline
      rcases List.mem_append.mp (List.mem_of_mem_take hline) with hlog | hresult
      · obtain ⟨log, hmem, rfl⟩ := List.mem_map.mp hlog
        exact hbounds log hmem
      · rw [List.mem_singleton.mp hresult]
        exact ⟨Int.natCast_nonneg 100, le_refl _⟩
    · rw [hall, hsent]
      constructor
      · intro hwhole
        refine ⟨resultLine message, ?_, rfl⟩
        rw [List.take_of_length_le (by simp; omega)]
        exact List.mem_append_right _ (List.mem_singleton_self _)
      · rintro ⟨line, hline, hlevel⟩
        by_contra hshort
        rw [List.take_append_of_le_length (by rw [List.length_map]; omega)] at hline
        obtain ⟨log, hlog, rfl⟩ := List.mem_map.mp (List.mem_of_mem_take hline)
        have hlogLevel : log.toPb.level = "INFO" := hinfo log hlog
        rw [hlogLevel] at hlevel
        exact absurd hlevel (by decide)

def twoSignals : BacktestRequest :=
  ⟨[⟨1, "EURUSD", "BUY", "MARKET", .fin 1, .fin 0, [], none, "demo", 80⟩,
    ⟨2, "EURUSD", "SELL", "MARKET", .fin 1, .fin 2, [], some 7, "demo", 80⟩], ""⟩

/-- A client that goes away after the second line has no result. -/
theorem stream_orderly_of_two :
    let sends : Sends := fun n => if n < 2 then none else some "canceled"
    (runBacktest ⟨fun _ => .ok (), fun _ => "\x7b\x7d"⟩ sends ⟨id, 0, 1⟩
      (newSimulator ⟨.fin 2, .fin (3 / 2), "sequential"⟩) twoSignals).1.1.length ≤ 5 :=
  (stream_orderly ⟨fun _ => .ok (), fun _ => "\x7b\x7d"⟩ _ ⟨id, 0, 1⟩ _ twoSignals rfl).2.2.1

end SphereFx.Backtester
