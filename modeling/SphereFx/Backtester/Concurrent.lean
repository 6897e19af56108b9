import SphereFx.Base.Run
import SphereFx.Backtester.Simulator

/-!
# Concurrent runs of one simulator

`Run` holds the lock twice, to take a number and to store its result, and simulates in between;
`GetCachedResult` reads under the lock. A schedule interleaves these steps of any number of calls. What
keeps the calls apart is that the number of a call is its place in the order of issue: the cache at a
number is told by that call alone.

Every number handed out belongs to a call in flight or to an entry that stays in the cache, and so the
`int64` counter does not come round.
-/

namespace SphereFx.Backtester

/-! ### The parts of `Run` -/

/-- The first critical section. -/
def Simulator.issue (s : Simulator) : Int × Simulator :=
  (s.runCounter + 1, { s with runCounter := s.runCounter + 1 })

/-- What stands between the two, which reads nothing that changes. -/
def simulate (cfg : Config) (runId : Int) (env : RunEnv) (signals : List Signal) : SimulationResult :=
  let book := runBook cfg runId (env.sortByTimestamp signals)
  let totalSignals := book.trades.length
  let winRate := F64.fin book.wins / .fin totalSignals * .fin 100
  { runId := runId
    totalSignals := totalSignals
    winCount := book.wins
    lossCount := book.losses
    winRate := winRate
    totalRR := book.cumRR
    profitFactor := calculateProfitFactor book.trades
    maxDrawdown := calculateMaxDrawdown book.equityPoints
    sharpeRatio := calculateSharpeRatio book.equityPoints
    equityCurve := book.equityPoints
    trades := book.trades
    logs := book.logs ++ [doneLine env winRate book.cumRR]
    startedAt := env.startedAt
    finishedAt := env.finishedAt }

/-- The second critical section. -/
def Simulator.store (s : Simulator) (runId : Int) (result : SimulationResult) : Simulator :=
  { s with cache := Function.update s.cache runId (some result) }

/-- A run that nothing interrupts takes the three one after the other. -/
theorem run_eq_parts (env : RunEnv) (s : Simulator) (signals : List Signal) :
    s.run env signals =
      (simulate s.cfg s.issue.1 env signals,
        s.issue.2.store s.issue.1 (simulate s.cfg s.issue.1 env signals)) := rfl

namespace Concurrent

/-! ### Calls and schedules -/

/-- How far a call of `Run` has come. -/
inductive Stage where
  | issued
  | simulated (result : SimulationResult)
  | stored (result : SimulationResult)
  | returned (result : SimulationResult)

namespace Stage

/-- The result, once there is one. -/
def result? : Stage → Option SimulationResult
  | .issued => none
  | .simulated result | .stored result | .returned result => some result

/-- The result that is in the cache. -/
def cached? : Stage → Option SimulationResult
  | .issued | .simulated _ => none
  | .stored result | .returned result => some result

/-- The result that the caller has. -/
def returned? : Stage → Option SimulationResult
  | .issued | .simulated _ | .stored _ => none
  | .returned result => some result

theorem result?_of_cached? {stage : Stage} {r : SimulationResult} (h : stage.cached? = some r) :
    stage.result? = some r := by
  cases stage <;> first | exact h | cases h

theorem cached?_of_returned? {stage : Stage} {r : SimulationResult} (h : stage.returned? = some r) :
    stage.cached? = some r := by
  cases stage <;> first | exact h | cases h

end Stage

/-- A call of `Run` that has its number. -/
structure Call where
  signals : List Signal
  runId : Int
  stage : Stage

/-- An answer of `GetCachedResult`. -/
structure Answer where
  runId : Int
  result : Option SimulationResult

/-- The simulator, the calls in the order of issue and the answers given. -/
structure World where
  sim : Simulator
  calls : List Call
  answers : List Answer

def start (cfg : Config) : World := ⟨newSimulator cfg, [], []⟩

/-- The next step of a call; the environment is what a simulation finds. -/
def Call.next (env : RunEnv) (sim : Simulator) (call : Call) : Simulator × Stage :=
  match call.stage with
  | .issued => (sim, .simulated (simulate sim.cfg call.runId env call.signals))
  | .simulated result => (sim.store call.runId result, .stored result)
  | .stored result => (sim, .returned result)
  | .returned result => (sim, .returned result)

/-- A new call takes its number, the call at a place goes on, or somebody asks for a result. -/
inductive Action where
  | issue (signals : List Signal)
  | proceed (place : ℕ) (env : RunEnv)
  | getCachedResult (runId : Int)

def step (w : World) : Action → World
  | .issue signals =>
      let (runId, sim) := w.sim.issue
      { w with sim := sim, calls := w.calls ++ [⟨signals, runId, .issued⟩] }
  | .proceed place env =>
      match w.calls[place]? with
      | some call =>
          let (sim, stage) := call.next env w.sim
          { w with sim := sim, calls := w.calls.set place { call with stage := stage } }
      | none => w
  | .getCachedResult runId =>
      { w with answers := w.answers ++ [⟨runId, w.sim.getCachedResult runId⟩] }

/-! ### What the step of a call does -/

/-- One stage leads to another that keeps its results. -/
structure Stage.LeadsTo (stage stage' : Stage) : Prop where
  result : ∀ r, stage.result? = some r → stage'.result? = some r
  cached : ∀ r, stage.cached? = some r → stage'.cached? = some r
  returned : ∀ r, stage.returned? = some r → stage'.returned? = some r

theorem Stage.LeadsTo.refl (stage : Stage) : stage.LeadsTo stage :=
  ⟨fun _ h => h, fun _ h => h, fun _ h => h⟩

theorem Stage.LeadsTo.trans {stage stage' stage'' : Stage} (h : stage.LeadsTo stage')
    (h' : stage'.LeadsTo stage'') : stage.LeadsTo stage'' :=
  ⟨fun r hr => h'.result r (h.result r hr), fun r hr => h'.cached r (h.cached r hr),
    fun r hr => h'.returned r (h.returned r hr)⟩

section Next

variable (env : RunEnv) (sim : Simulator) (call : Call)

private theorem runCounter_next : (call.next env sim).1.runCounter = sim.runCounter := by
  unfold Call.next
  cases call.stage <;> rfl

private theorem leadsTo_next : call.stage.LeadsTo (call.next env sim).2 := by
  unfold Call.next
  cases call.stage with
  | issued => exact ⟨fun _ h => (nomatch h), fun _ h => (nomatch h), fun _ h => (nomatch h)⟩
  | simulated result => exact ⟨fun _ h => h, fun _ h => (nomatch h), fun _ h => (nomatch h)⟩
  | stored result => exact ⟨fun _ h => h, fun _ h => h, fun _ h => (nomatch h)⟩
  | returned result => exact .refl _

theorem cache_next_of_ne {id : Int} (h : id ≠ call.runId) :
    (call.next env sim).1.cache id = sim.cache id := by
  unfold Call.next
  cases call.stage with
  | simulated result => exact Function.update_of_ne h _ _
  | issued | stored result | returned result => rfl

private theorem cache_next_self (h : sim.cache call.runId = call.stage.cached?) :
    (call.next env sim).1.cache call.runId = (call.next env sim).2.cached? := by
  unfold Call.next
  cases hstage : call.stage with
  | simulated result => exact Function.update_self _ _ _
  | issued | stored result | returned result =>
      rw [hstage] at h
      exact h

end Next

/-! ### What a step does to the calls -/

/-- Every call has kept its place and its number, and its results. -/
def Call.LeadsTo (call call' : Call) : Prop :=
  call'.runId = call.runId ∧ call.stage.LeadsTo call'.stage

def World.LeadsTo (w w' : World) : Prop :=
  ∀ (place : ℕ) (call : Call), w.calls[place]? = some call →
    ∃ call', w'.calls[place]? = some call' ∧ call.LeadsTo call'

theorem World.LeadsTo.trans {w w' w'' : World} (h : w.LeadsTo w') (h' : w'.LeadsTo w'') :
    w.LeadsTo w'' := by
  intro place call hcall
  obtain ⟨call', hcall', hrun, hstage⟩ := h place call hcall
  obtain ⟨call'', hcall'', hrun', hstage'⟩ := h' place call' hcall'
  exact ⟨call'', hcall'', hrun'.trans hrun, hstage.trans hstage'⟩

theorem World.LeadsTo.refl (w : World) : w.LeadsTo w :=
  fun _ call hcall => ⟨call, hcall, rfl, .refl _⟩

theorem getElem?_concat {α : Type} (l : List α) (a : α) (i : ℕ) :
    (l ++ [a])[i]? = if i = l.length then some a else l[i]? := by
  by_cases hi : i = l.length
  · rw [if_pos hi, hi, List.getElem?_concat_length]
  · rw [if_neg hi]
    rcases Nat.lt_or_gt_of_ne hi with hlt | hgt
    · exact List.getElem?_append_left hlt
    · rw [List.getElem?_eq_none hgt.le, List.getElem?_eq_none]
      rw [List.length_append, List.length_singleton]
      omega

section Calls

variable {w : World} {place : ℕ} {call : Call}

theorem calls_issue (w : World) (signals : List Signal) :
    (step w (.issue signals)).calls = w.calls ++ [⟨signals, w.sim.runCounter + 1, .issued⟩] := rfl

theorem step_proceed (h : w.calls[place]? = some call) (env : RunEnv) :
    step w (.proceed place env) =
      { w with
        sim := (call.next env w.sim).1
        calls := w.calls.set place { call with stage := (call.next env w.sim).2 } } := by
  simp only [step, h]

theorem step_proceed_none (h : w.calls[place]? = none) (env : RunEnv) :
    step w (.proceed place env) = w := by
  simp only [step, h]

theorem calls_proceed (h : w.calls[place]? = some call) (env : RunEnv) (other : ℕ) :
    (step w (.proceed place env)).calls[other]? =
      if other = place then some { call with stage := (call.next env w.sim).2 }
      else w.calls[other]? := by
  obtain ⟨hlt, -⟩ := List.getElem?_eq_some_iff.mp h
  rw [step_proceed h]
  by_cases hother : other = place
  · rw [if_pos hother, hother]
    exact List.getElem?_set_self hlt
  · rw [if_neg hother]
    exact List.getElem?_set_ne (Ne.symm hother)

theorem leadsTo_step (w : World) (action : Action) : w.LeadsTo (step w action) := by
  intro other call hcall
  cases action with
  | issue signals =>
      obtain ⟨hlt, -⟩ := List.getElem?_eq_some_iff.mp hcall
      exact ⟨call, (List.getElem?_append_left hlt).trans hcall, rfl, .refl _⟩
  | proceed place env =>
      cases hgoing : w.calls[place]? with
      | none =>
          rw [step_proceed_none hgoing]
          exact ⟨call, hcall, rfl, .refl _⟩
      | some going =>
          rw [calls_proceed hgoing]
          by_cases hother : other = place
          · rw [hother, hgoing] at hcall
            obtain rfl := Option.some.inj hcall
            exact ⟨_, if_pos hother, rfl, leadsTo_next env w.sim _⟩
          · exact ⟨call, (if_neg hother).trans hcall, rfl, .refl _⟩
  | getCachedResult runId => exact ⟨call, hcall, rfl, .refl _⟩

private theorem leadsTo_foldl (w : World) (actions : List Action) : w.LeadsTo (actions.foldl step w) :=
  visited_invariant (fun h => h.trans (leadsTo_step _ _)) (World.LeadsTo.refl w) _
    (foldl_mem_visited step w actions)

end Calls

/-! ### The numbers and the cache -/

/-- The number of a call is its place, and tells what the cache has there. -/
structure Consistent (w : World) : Prop where
  counter : w.sim.runCounter = w.calls.length
  numbered : ∀ (place : ℕ) (call : Call), w.calls[place]? = some call → call.runId = place + 1
  cached : ∀ place : ℕ, w.sim.cache (place + 1) = w.calls[place]?.bind fun call => call.stage.cached?
  unnumbered : ∀ id ≤ 0, w.sim.cache id = none

theorem consistent_start (cfg : Config) : Consistent (start cfg) where
  counter := rfl
  numbered := fun _ _ h => nomatch h
  cached := fun _ => rfl
  unnumbered := fun _ _ => rfl

namespace Consistent

variable {w : World}

theorem issue (hw : Consistent w) (signals : List Signal) : Consistent (step w (.issue signals)) where
  counter := by
    rw [calls_issue, List.length_append, List.length_singleton, Nat.cast_succ, ← hw.counter]
    rfl
  numbered := by
    intro place call h
    rw [calls_issue, getElem?_concat] at h
    by_cases hlast : place = w.calls.length
    · rw [if_pos hlast] at h
      rw [← Option.some.inj h, hlast, ← hw.counter]
    · rw [if_neg hlast] at h
      exact hw.numbered place call h
  cached := by
    intro place
    rw [calls_issue, getElem?_concat]
    by_cases hlast : place = w.calls.length
    · have hbefore := hw.cached place
      rw [hlast, List.getElem?_eq_none le_rfl] at hbefore
      rw [if_pos hlast, hlast]
      exact hbefore
    · rw [if_neg hlast]
      exact hw.cached place
  unnumbered := hw.unnumbered

theorem proceed (hw : Consistent w) (place : ℕ) (env : RunEnv) :
    Consistent (step w (.proceed place env)) := by
  cases hcall : w.calls[place]? with
  | none =>
      rw [step_proceed_none hcall]
      exact hw
  | some call =>
      have hrun := hw.numbered place call hcall
      have hsim : (step w (.proceed place env)).sim = (call.next env w.sim).1 := by
        rw [step_proceed hcall]
      constructor
      · rw [step_proceed hcall]
        show (call.next env w.sim).1.runCounter = ((w.calls.set place _).length : ℕ)
        rw [runCounter_next, List.length_set]
        exact hw.counter
      · intro other call' h
        rw [calls_proceed hcall] at h
        by_cases hother : other = place
        · rw [if_pos hother] at h
          rw [← Option.some.inj h, hother]
          exact hrun
        · rw [if_neg hother] at h
          exact hw.numbered other call' h
      · intro other
        rw [calls_proceed hcall, hsim]
        by_cases hother : other = place
        · have hbefore := hw.cached place
          rw [hcall, ← hrun] at hbefore
          rw [if_pos hother, hother, ← hrun]
          exact cache_next_self env w.sim call hbefore
        · have hne : (other + 1 : Int) ≠ call.runId := by
            rw [hrun]
            omega
          rw [if_neg hother, cache_next_of_ne env w.sim call hne]
          exact hw.cached other
      · intro id hid
        have hne : id ≠ call.runId := by
          rw [hrun]
          omega
        rw [hsim, cache_next_of_ne env w.sim call hne]
        exact hw.unnumbered id hid

theorem after_step (hw : Consistent w) (action : Action) : Consistent (step w action) := by
  cases action with
  | issue signals => exact hw.issue signals
  | proceed place env => exact hw.proceed place env
  | getCachedResult runId => exact ⟨hw.counter, hw.numbered, hw.cached, hw.unnumbered⟩

private theorem call_of_cached (hw : Consistent w) {id : Int} {r : SimulationResult}
    (h : w.sim.cache id = some r) :
    ∃ call ∈ w.calls, call.runId = id ∧ call.stage.cached? = some r := by
  have hpos : 0 < id := by
    by_contra hid
    rw [hw.unnumbered id (not_lt.mp hid)] at h
    cases h
  obtain ⟨place, hplace⟩ := Int.eq_ofNat_of_zero_le (Int.le_sub_one_of_lt hpos)
  obtain rfl : id = place + 1 := by
    omega
  rw [hw.cached place] at h
  obtain ⟨call, hcall, hr⟩ := Option.bind_eq_some_iff.mp h
  exact ⟨call, List.mem_of_getElem? hcall, hw.numbered place call hcall, hr⟩

theorem cached_of_mem (hw : Consistent w) {call : Call} (h : call ∈ w.calls) :
    w.sim.cache call.runId = call.stage.cached? := by
  obtain ⟨place, hplace⟩ := List.mem_iff_getElem?.mp h
  rw [hw.numbered place call hplace, hw.cached place, hplace]
  rfl

theorem increasing (hw : Consistent w) : (w.calls.map Call.runId).Pairwise (· < ·) := by
  rw [List.pairwise_map, List.pairwise_iff_getElem]
  intro i j hi hj hij
  rw [hw.numbered i _ (List.getElem?_eq_getElem hi), hw.numbered j _ (List.getElem?_eq_getElem hj)]
  omega

private theorem call_unique (hw : Consistent w) {call call' : Call} (h : call ∈ w.calls) (h' : call' ∈ w.calls)
    (hrun : call.runId = call'.runId) : call = call' := by
  obtain ⟨i, hi⟩ := List.mem_iff_getElem?.mp h
  obtain ⟨j, hj⟩ := List.mem_iff_getElem?.mp h'
  rw [hw.numbered i call hi, hw.numbered j call' hj] at hrun
  obtain rfl : i = j := by
    omega
  exact Option.some.inj (hi.symm.trans hj)

end Consistent

theorem consistent_foldl {w : World} (hw : Consistent w) (actions : List Action) :
    Consistent (actions.foldl step w) :=
  visited_invariant (fun h => h.after_step _) hw _ (foldl_mem_visited step w actions)

/-! ### The results -/

/-- The results of the calls are those of their own signals, and the results that were answered are
those of the calls with these numbers. -/
structure Genuine (cfg : Config) (w : World) : Prop where
  cfg_eq : w.sim.cfg = cfg
  own : ∀ call ∈ w.calls, ∀ r, call.stage.result? = some r →
    ∃ env, r = simulate cfg call.runId env call.signals
  answered : ∀ answer ∈ w.answers, ∀ r, answer.result = some r →
    ∃ call ∈ w.calls, call.runId = answer.runId ∧ call.stage.result? = some r

section Results

variable {cfg : Config} {w w' : World}

private theorem genuine_start (cfg : Config) : Genuine cfg (start cfg) where
  cfg_eq := rfl
  own := fun _ h => nomatch h
  answered := fun _ h => nomatch h

private theorem cfg_next (env : RunEnv) (sim : Simulator) (call : Call) : (call.next env sim).1.cfg = sim.cfg := by
  unfold Call.next
  cases call.stage <;> rfl

private theorem result_next {env : RunEnv} {sim : Simulator} {call : Call} {r : SimulationResult}
    (h : (call.next env sim).2.result? = some r) :
    r = simulate sim.cfg call.runId env call.signals ∨ call.stage.result? = some r := by
  unfold Call.next at h
  cases hstage : call.stage with
  | issued =>
      rw [hstage] at h
      exact Or.inl (Option.some.inj h).symm
  | simulated result | stored result | returned result =>
      rw [hstage] at h
      exact Or.inr h

theorem World.LeadsTo.exists_call (h : w.LeadsTo w') {call : Call} (hcall : call ∈ w.calls) :
    ∃ call' ∈ w'.calls, call.LeadsTo call' := by
  obtain ⟨place, hplace⟩ := List.mem_iff_getElem?.mp hcall
  obtain ⟨call', hcall', hleads⟩ := h place call hplace
  exact ⟨call', List.mem_of_getElem? hcall', hleads⟩

theorem Genuine.answered_later (h : Genuine cfg w) (hlater : w.LeadsTo w') :
    ∀ answer ∈ w.answers, ∀ r, answer.result = some r →
      ∃ call ∈ w'.calls, call.runId = answer.runId ∧ call.stage.result? = some r := by
  intro answer hanswer r hr
  obtain ⟨call, hcall, hrun, hresult⟩ := h.answered answer hanswer r hr
  obtain ⟨call', hcall', hrun', hstage⟩ := hlater.exists_call hcall
  exact ⟨call', hcall', hrun'.trans hrun, hstage.result r hresult⟩

theorem Genuine.after_step (h : Genuine cfg w) (hw : Consistent w) (action : Action) :
    Genuine cfg (step w action) := by
  have hlater := h.answered_later (leadsTo_step w action)
  cases action with
  | issue signals =>
      refine ⟨h.cfg_eq, fun call hcall r hr => ?_, hlater⟩
      rw [calls_issue, List.mem_append, List.mem_singleton] at hcall
      rcases hcall with hold | rfl
      · exact h.own call hold r hr
      · cases hr
  | proceed place env =>
      cases hgoing : w.calls[place]? with
      | none =>
          rw [step_proceed_none hgoing]
          exact h
      | some going =>
          have hmem := List.mem_of_getElem? hgoing
          rw [step_proceed hgoing] at hlater ⊢
          refine ⟨(cfg_next env w.sim going).trans h.cfg_eq, fun call hcall r hr => ?_, hlater⟩
          rcases List.mem_or_eq_of_mem_set hcall with hold | rfl
          · exact h.own call hold r hr
          · rcases result_next hr with hnew | hhad
            · exact ⟨env, hnew.trans (by rw [h.cfg_eq])⟩
            · exact h.own going hmem r hhad
  | getCachedResult runId =>
      refine ⟨h.cfg_eq, h.own, fun answer hanswer r hr => ?_⟩
      rcases List.mem_append.mp hanswer with hold | hnew
      · exact h.answered answer hold r hr
      · rw [List.mem_singleton.mp hnew] at hr ⊢
        obtain ⟨call, hcall, hrun, hcached⟩ := hw.call_of_cached hr
        exact ⟨call, hcall, hrun, Stage.result?_of_cached? hcached⟩

private theorem genuine_foldl (h : Genuine cfg w) (hw : Consistent w) (actions : List Action) :
    Genuine cfg (actions.foldl step w) := by
  have hboth : ∀ v ∈ visited step w actions, Genuine cfg v ∧ Consistent v :=
    visited_invariant (fun hv => ⟨hv.1.after_step hv.2 _, hv.2.after_step _⟩) ⟨h, hw⟩
  exact (hboth _ (foldl_mem_visited step w actions)).1

/-- A step that changes the cache stores the result of a call under its own number, where there was
nothing. -/
theorem Consistent.stores (hw : Consistent w) {action : Action} {id : Int}
    (h : (step w action).sim.getCachedResult id ≠ w.sim.getCachedResult id) :
    ∃ place env call r, action = .proceed place env ∧ w.calls[place]? = some call ∧ call.runId = id ∧
      call.stage = .simulated r ∧ w.sim.getCachedResult id = none ∧
      (step w action).sim.getCachedResult id = some r := by
  cases action with
  | issue signals => exact absurd rfl h
  | getCachedResult runId => exact absurd rfl h
  | proceed place env =>
      cases hcall : w.calls[place]? with
      | none =>
          rw [step_proceed_none hcall] at h
          exact absurd rfl h
      | some call =>
          rw [step_proceed hcall] at h ⊢
          have hid : id = call.runId := by
            by_contra hne
            exact h (cache_next_of_ne env w.sim call hne)
          have hbefore := hw.cached_of_mem (List.mem_of_getElem? hcall)
          rw [← hid] at hbefore
          cases hstage : call.stage with
          | simulated r =>
              rw [hstage] at hbefore
              have hnext : (call.next env w.sim).1 = w.sim.store call.runId r := by
                rw [Call.next, hstage]
              refine ⟨place, env, call, r, rfl, hcall, hid.symm, hstage, hbefore, ?_⟩
              show (call.next env w.sim).1.cache id = some r
              rw [hnext, hid]
              exact Function.update_self _ _ _
          | issued | stored r | returned r =>
              refine absurd ?_ h
              show (call.next env w.sim).1.cache id = w.sim.cache id
              rw [Call.next, hstage]

/-- What holds in a state of a schedule, and in a later one. -/
structure Apart (cfg : Config) (w w' : World) : Prop where
  increasing : (w.calls.map Call.runId).Pairwise (· < ·)
  own : ∀ call ∈ w.calls, ∀ r, call.stage.result? = some r →
    ∃ env, r = simulate cfg call.runId env call.signals
  answered : ∀ answer ∈ w.answers, answer.result = none ∨
    ∃ call ∈ w.calls, call.runId = answer.runId ∧ answer.result = call.stage.result?
  returned : ∀ answer ∈ w.answers, ∀ call ∈ w'.calls, call.runId = answer.runId →
    ∀ r, call.stage.returned? = some r → answer.result = none ∨ answer.result = some r
  remains : ∀ call ∈ w.calls, ∀ r, call.stage.returned? = some r →
    w'.sim.getCachedResult call.runId = some r
  stores : ∀ action id, (step w action).sim.getCachedResult id ≠ w.sim.getCachedResult id →
    ∃ place env call r, action = .proceed place env ∧ w.calls[place]? = some call ∧
      call.runId = id ∧ call.stage = .simulated r ∧ w.sim.getCachedResult id = none ∧
      (step w action).sim.getCachedResult id = some r

/-- Concurrent backtests do not mix, whatever the schedule. -/
theorem runs_apart (cfg : Config) (before after : List Action) :
    Apart cfg (before.foldl step (start cfg)) (after.foldl step (before.foldl step (start cfg))) := by
  have hw : Consistent (before.foldl step (start cfg)) := consistent_foldl (consistent_start cfg) before
  have hgenuine : Genuine cfg (before.foldl step (start cfg)) :=
    genuine_foldl (genuine_start cfg) (consistent_start cfg) before
  generalize before.foldl step (start cfg) = w at hw hgenuine ⊢
  have hlater := leadsTo_foldl w after
  have hw' : Consistent (after.foldl step w) := consistent_foldl hw after
  constructor
  · exact hw.increasing
  · exact hgenuine.own
  · intro answer hanswer
    cases hr : answer.result with
    | none => exact Or.inl rfl
    | some r =>
        obtain ⟨call, hcall, hrun, hresult⟩ := hgenuine.answered answer hanswer r hr
        exact Or.inr ⟨call, hcall, hrun, hresult.symm⟩
  · intro answer hanswer call hcall hrun r hreturned
    cases hr : answer.result with
    | none => exact Or.inl rfl
    | some r' =>
        obtain ⟨call', hcall', hrun', hresult⟩ := hgenuine.answered_later hlater answer hanswer r' hr
        have hsame := hw'.call_unique hcall' hcall (hrun'.trans hrun.symm)
        rw [hsame, Stage.result?_of_cached? (Stage.cached?_of_returned? hreturned)] at hresult
        exact Or.inr hresult.symm
  · intro call hcall r hreturned
    obtain ⟨call', hcall', hrun, hstage⟩ := hlater.exists_call hcall
    rw [← hrun, Simulator.getCachedResult, hw'.cached_of_mem hcall']
    exact Stage.cached?_of_returned? (hstage.returned r hreturned)
  · exact fun action id h => hw.stores h

/-- A buy and no target. -/
def oneSignal : Signal := ⟨1, "EURUSD", "BUY", "LIMIT", .fin 1, .fin (1 / 2), [], 0, "demo", 80⟩

/-- The second call overtakes the first one, and both are asked for. -/
def twoRuns (env : RunEnv) : List Action :=
  [.issue [oneSignal], .issue [oneSignal, oneSignal], .proceed 1 env, .proceed 0 env, .proceed 1 env,
    .proceed 1 env, .proceed 0 env, .getCachedResult 2, .proceed 0 env, .getCachedResult 1]

-- Both have returned, and each is answered with the result of its own signals.
example (cfg : Config) (env : RunEnv) :
    let w := (twoRuns env).foldl step (start cfg)
    let first := simulate cfg 1 env [oneSignal]
    let second := simulate cfg 2 env [oneSignal, oneSignal]
    w.calls.map Call.stage = [.returned first, .returned second] ∧
      w.answers = [⟨2, some second⟩, ⟨1, some first⟩] := by
  simp [twoRuns, step, start, newSimulator, Simulator.issue, Call.next, Simulator.store,
    Simulator.getCachedResult]

end Results

end Concurrent

end SphereFx.Backtester
