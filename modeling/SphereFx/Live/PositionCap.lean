import SphereFx.Base.Run
import SphereFx.Live.Process

/-!
# The cap on open positions over whole runs

`checkMaxPositions` counts rows of `live_positions`. No statement of the repository inserts into that
table, so over every run it stays empty and the check compares zero with the maximum. What is left of
the cap is what the runs themselves respect.
-/

namespace SphereFx.Live

structure Worker where
  jobs : JobTable
  positions : List LivePosition

/-- A step of a run: a routed job, a run of `ProcessNextJob`, or a call of `ClosePosition`. -/
inductive WorkerStep where
  | enqueue (id : JobId) (signalId accountId userId : Nat) (lotSize : ℚ) (payload : Json) (now : Nat)
  | process (env : Env)
  | close (positionId now : Nat) (closeReason : String)

namespace Worker

def empty : Worker := ⟨Table.empty, []⟩

/-- The environment of a run, with the positions read from the table. -/
def env (s : Worker) (env : Env) : Env :=
  { env with data := { env.data with positions := s.positions } }

def step (cfg : Config) (s : Worker) : WorkerStep → Worker
  | .enqueue id signalId accountId userId lotSize payload now =>
      { s with jobs := (s.jobs.insert?
          (LiveJob.enqueued id signalId accountId userId lotSize payload now)).getD s.jobs }
  | .process env => { s with jobs := (processNextJob cfg (s.env env) s.jobs).2 }
  | .close positionId now closeReason =>
      { s with positions := closePosition s.positions positionId now closeReason }

/-- The job's order was filled on this account, and its position has not been closed. -/
def isOpenOrder (positions : List LivePosition) (accountId : Nat) (job : LiveJob) : Bool :=
  job.accountId = accountId && job.status = .success &&
    !positions.any fun position => position.jobId = job.id && position.status = some "CLOSED"

def openOrders (s : Worker) (accountId : Nat) : Nat :=
  s.jobs.rows.countP (isOpenOrder s.positions accountId)

/-- No job is claimed for an account that is at the maximum already. -/
def UnderCap (cfg : Config) (s : Worker) : WorkerStep → Prop
  | .process env => ∀ job jobs,
      claimNextJob env.claimFault env.pick env.now s.jobs = (.ok (some job), jobs) →
        (s.openOrders job.accountId : Int) < cfg.defaultMaxPositions
  | _ => True

instance (cfg : Config) (s : Worker) (step : WorkerStep) : Decidable (s.UnderCap cfg step) :=
  match step with
  | .process env =>
      match hclaim : claimNextJob env.claimFault env.pick env.now s.jobs with
      | (.ok (some job), jobs) =>
          decidable_of_iff ((s.openOrders job.accountId : Int) < cfg.defaultMaxPositions)
            ⟨fun h other jobs' hother => by
              obtain rfl : job = other :=
                Option.some.inj (Except.ok.inj (Prod.mk.inj (hclaim.symm.trans hother)).1)
              exact h, fun h => h job jobs hclaim⟩
      | (.ok none, jobs) => isTrue fun job jobs' hother => by cases hclaim.symm.trans hother
      | (.error err, jobs) => isTrue fun job jobs' hother => by cases hclaim.symm.trans hother
  | .enqueue _ _ _ _ _ _ _ | .close _ _ _ => isTrue trivial

end Worker

/-! ### Counting the rows of a table -/

section Count

variable {t : JobTable} {p : LiveJob → Bool} {id : JobId} {f : LiveJob → LiveJob}
  {hf : ∀ job, (f job).id = job.id}

theorem countP_update_le (h : ∀ row ∈ t.rows, row.id = id → p (f row) = true → p row = true) :
    (t.update id f hf).rows.countP p ≤ t.rows.countP p := by
  show (t.rows.map _).countP p ≤ _
  rw [List.countP_map]
  apply List.countP_mono_left
  intro row hmem hp
  by_cases hid : row.id = id
  · rw [Function.comp_apply, if_pos hid] at hp
    exact h row hmem hid hp
  · rwa [Function.comp_apply, if_neg hid] at hp

private theorem countP_update_le_succ : (t.update id f hf).rows.countP p ≤ t.rows.countP p + 1 := by
  have hkey : t.rows.countP (fun row => row.id = id) ≤ 1 := by
    have hcount : (t.rows.map LiveJob.id).count id ≤ 1 := List.nodup_iff_count_le_one.mp t.unique id
    rw [List.count, List.countP_map] at hcount
    exact hcount
  have hsum : ∀ rows : List LiveJob,
      (rows.map fun row => if row.id = id then f row else row).countP p ≤
        rows.countP p + rows.countP (fun row => row.id = id) := by
    intro rows
    induction rows with
    | nil => exact Nat.zero_le _
    | cons row rest ih =>
        simp only [List.map_cons, List.countP_cons, decide_eq_true_eq]
        by_cases hid : row.id = id
        · simp only [if_pos hid]
          split <;> split <;> omega
        · simp only [if_neg hid]
          omega
  have hle := hsum t.rows
  show (t.rows.map _).countP p ≤ _
  omega

end Count

/-! ### What one run adds -/

section Steps

variable {positions : List LivePosition} {accountId : Nat}

theorem countP_markClaimed_le (jobs : JobTable) (id : JobId) (now : Nat) :
    (markClaimed jobs id now).rows.countP (Worker.isOpenOrder positions accountId) ≤
      jobs.rows.countP (Worker.isOpenOrder positions accountId) := by
  apply countP_update_le
  intro row _ _ h
  simp [Worker.isOpenOrder, LiveJob.claim] at h

private theorem countP_markFailed_le (jobs : JobTable) (id : JobId) (now : Nat) (result : Json) :
    (markFinished jobs id now .failed result).rows.countP (Worker.isOpenOrder positions accountId) ≤
      jobs.rows.countP (Worker.isOpenOrder positions accountId) := by
  apply countP_update_le
  intro row _ _ h
  simp [Worker.isOpenOrder] at h

private theorem countP_markSuccess_le {jobs : JobTable} {id : JobId} {own : Nat}
    (hown : ∀ row ∈ jobs.rows, row.id = id → row.accountId = own) (now : Nat) (result : Json) :
    (markFinished jobs id now .success result).rows.countP
        (Worker.isOpenOrder positions accountId) ≤
      jobs.rows.countP (Worker.isOpenOrder positions accountId) + if accountId = own then 1 else 0 := by
  by_cases heq : accountId = own
  · rw [if_pos heq]
    exact countP_update_le_succ
  · rw [if_neg heq]
    apply countP_update_le
    intro row hmem hid h
    have haccount : row.accountId = accountId := by
      simp only [Worker.isOpenOrder, Bool.and_eq_true, decide_eq_true_eq] at h
      exact h.1.1
    exact absurd (haccount.symm.trans (hown row hmem hid)) heq

/-- The deferred closure writes `FAILED` at most. -/
theorem processClaimed_jobs (cfg : Config) (env : Env) (job : LiveJob) (jobs : JobTable) :
    (processClaimed cfg env job jobs).2 = jobs ∨
      (processClaimed cfg env job jobs).2 = (processBody cfg env job jobs).2 ∨
      ∃ result, (processClaimed cfg env job jobs).2 =
        markFinished (processBody cfg env job jobs).2 job.id env.now .failed result := by
  unfold processClaimed
  by_cases hcrash : env.panicAt = some .claimedLog
  · rw [if_pos hcrash]
    exact Or.inl rfl
  rw [if_neg hcrash]
  cases herr : (processBody cfg env job jobs).1.processErr env.panicValue with
  | none => exact Or.inr (Or.inl (by simp only [herr]))
  | some err =>
      simp only [herr]
      cases env.failedWrite with
      | done => exact Or.inr (Or.inr ⟨_, rfl⟩)
      | failed cause applied =>
          cases applied with
          | true => exact Or.inr (Or.inr ⟨_, rfl⟩)
          | false => exact Or.inr (Or.inl rfl)

private theorem processClaimed_count_le (cfg : Config) (env : Env) {job : LiveJob} {jobs : JobTable}
    (hown : ∀ row ∈ jobs.rows, row.id = job.id → row.accountId = job.accountId) :
    (processClaimed cfg env job jobs).2.rows.countP (Worker.isOpenOrder positions accountId) ≤
      jobs.rows.countP (Worker.isOpenOrder positions accountId) +
        if accountId = job.accountId then 1 else 0 := by
  have hbody : (processBody cfg env job jobs).2.rows.countP
      (Worker.isOpenOrder positions accountId) ≤
        jobs.rows.countP (Worker.isOpenOrder positions accountId) +
          if accountId = job.accountId then 1 else 0 := by
    rcases processBody_table cfg env job jobs with h | ⟨result, h⟩
    · rw [h]
      exact Nat.le_add_right _ _
    · rw [h]
      exact countP_markSuccess_le hown _ _
  rcases processClaimed_jobs cfg env job jobs with h | h | ⟨result, h⟩
  · rw [h]
    exact Nat.le_add_right _ _
  · rw [h]
    exact hbody
  · rw [h]
    exact (countP_markFailed_le _ _ _ _).trans hbody

private theorem claimNextJob_count_le (fault : Option ClaimFault) (pick : JobId) (now : Nat)
    (jobs : JobTable) :
    (claimNextJob fault pick now jobs).2.rows.countP (Worker.isOpenOrder positions accountId) ≤
      jobs.rows.countP (Worker.isOpenOrder positions accountId) := by
  unfold claimNextJob
  split
  · exact le_rfl
  · exact le_rfl
  · split
    · exact le_rfl
    · split
      · exact le_rfl
      · simp only
        split
        · exact countP_markClaimed_le _ _ _
        · exact le_rfl
      · exact countP_markClaimed_le _ _ _

private theorem accountId_of_claimed {fault : Option ClaimFault} {pick : JobId} {now : Nat}
    {jobs jobs' : JobTable} {job : LiveJob}
    (h : claimNextJob fault pick now jobs = (.ok (some job), jobs')) :
    ∀ row ∈ jobs'.rows, row.id = job.id → row.accountId = job.accountId := by
  intro other hmem hid
  obtain ⟨row, hselect, rfl, rfl⟩ := claimNextJob_eq_some h
  have hrow : jobs.find? row.id = some row :=
    Table.find?_eq_some.mpr ⟨(selectNext_mem hselect).1, rfl⟩
  have hother : (markClaimed jobs row.id now).find? row.id = some other :=
    Table.find?_eq_some.mpr ⟨hmem, hid⟩
  rw [find?_markClaimed hrow now] at hother
  rw [← Option.some.inj hother]
  rfl

/-- A run of `ProcessNextJob` adds at most one filled order, on the account of the job it claims. -/
private theorem processNextJob_count_le (cfg : Config) (env : Env) (jobs : JobTable) :
    (processNextJob cfg env jobs).2.rows.countP (Worker.isOpenOrder positions accountId) ≤
        jobs.rows.countP (Worker.isOpenOrder positions accountId) ∨
      ∃ job claimed,
        claimNextJob env.claimFault env.pick env.now jobs = (.ok (some job), claimed) ∧
        accountId = job.accountId ∧
        (processNextJob cfg env jobs).2.rows.countP (Worker.isOpenOrder positions accountId) ≤
          jobs.rows.countP (Worker.isOpenOrder positions accountId) + 1 := by
  have hclaim := @claimNextJob_count_le positions accountId env.claimFault env.pick env.now jobs
  unfold processNextJob
  match hresult : claimNextJob env.claimFault env.pick env.now jobs with
  | (.error err, claimed) =>
      rw [hresult] at hclaim
      exact Or.inl hclaim
  | (.ok none, claimed) =>
      rw [hresult] at hclaim
      exact Or.inl hclaim
  | (.ok (some job), claimed) =>
      rw [hresult] at hclaim
      have hle := @processClaimed_count_le positions accountId cfg env job claimed
        (accountId_of_claimed hresult)
      by_cases heq : accountId = job.accountId
      · rw [if_pos heq] at hle
        exact Or.inr ⟨job, claimed, rfl, heq, hle.trans (Nat.add_le_add_right hclaim 1)⟩
      · rw [if_neg heq] at hle
        exact Or.inl (hle.trans hclaim)

end Steps

/-! ### Over whole runs -/

theorem Worker.positions_step {cfg : Config} {s : Worker} {step : WorkerStep}
    (h : s.positions = []) : (s.step cfg step).positions = [] := by
  cases step with
  | enqueue => exact h
  | process env => exact h
  | close positionId now closeReason =>
      show closePosition s.positions positionId now closeReason = []
      rw [h, closePosition_nil]

/-- Nothing is ever stored in `live_positions`, so the check counts zero positions in every run. -/
theorem positions_empty (cfg : Config) (steps : List WorkerStep) :
    ∀ s ∈ visited (Worker.step cfg) Worker.empty steps, s.positions = [] :=
  visited_invariant Worker.positions_step rfl

def Capped (cfg : Config) (s : Worker) : Prop :=
  ∀ accountId, (s.openOrders accountId : Int) ≤ cfg.defaultMaxPositions

private theorem capped_step {cfg : Config} {s : Worker} {step : WorkerStep}
    (h : s.positions = [] ∧ Capped cfg s) (hstep : s.UnderCap cfg step) :
    (s.step cfg step).positions = [] ∧ Capped cfg (s.step cfg step) := by
  refine ⟨Worker.positions_step h.1, fun accountId => ?_⟩
  cases step with
  | enqueue id signalId account userId lotSize payload now =>
      refine le_trans ?_ (h.2 accountId)
      cases hinsert : s.jobs.insert?
          (LiveJob.enqueued id signalId account userId lotSize payload now) with
      | none =>
          simp only [Worker.step, hinsert, Option.getD_none]
          exact le_rfl
      | some jobs =>
          obtain ⟨-, hrows⟩ := Table.insert?_eq_some hinsert
          simp only [Worker.step, hinsert, Option.getD_some, Worker.openOrders, hrows]
          rw [List.countP_cons_of_neg]
          simp [Worker.isOpenOrder, LiveJob.enqueued]
  | process env =>
      show ((processNextJob cfg (s.env env) s.jobs).2.rows.countP
        (Worker.isOpenOrder s.positions accountId) : Int) ≤ cfg.defaultMaxPositions
      rcases @processNextJob_count_le s.positions accountId cfg (s.env env) s.jobs with
        hle | ⟨job, claimed, hclaim, rfl, hle⟩
      · exact (Int.ofNat_le.mpr hle).trans (h.2 accountId)
      · have hunder : (s.openOrders job.accountId : Int) < cfg.defaultMaxPositions :=
          hstep job claimed hclaim
        unfold Worker.openOrders at hunder
        omega
  | close positionId now closeReason =>
      show (s.jobs.rows.countP (Worker.isOpenOrder
        (closePosition s.positions positionId now closeReason) accountId) : Int) ≤ _
      rw [h.1, closePosition_nil, ← h.1]
      exact h.2 accountId

/-- In every run in which no job is claimed for an account at the maximum, no account ever exceeds
it. -/
theorem cap_holds_along (cfg : Config) (steps : List WorkerStep)
    (hmax : 0 ≤ cfg.defaultMaxPositions)
    (h : Along (Worker.step cfg) (Worker.UnderCap cfg) Worker.empty steps) :
    ∀ s ∈ visited (Worker.step cfg) Worker.empty steps, ∀ accountId,
      (s.openOrders accountId : Int) ≤ cfg.defaultMaxPositions := by
  have hempty : Worker.empty.positions = [] ∧ Capped cfg Worker.empty :=
    ⟨rfl, fun _ => hmax⟩
  have hstep : ∀ {s step}, Worker.positions s = [] ∧ Capped cfg s → s.UnderCap cfg step →
      (s.step cfg step).positions = [] ∧ Capped cfg (s.step cfg step) := capped_step
  have hall : ∀ s ∈ visited (Worker.step cfg) Worker.empty steps,
      s.positions = [] ∧ Capped cfg s := visited_of_along hstep hempty h
  exact fun s hs => (hall s hs).2

def onePosition : Config := { defaultConfig with defaultMaxPositions := 1 }

def fillOf (id : JobId) : Env := { fillEnv none with pick := id }

def twoFills : List WorkerStep :=
  [.enqueue 42 7 3 9 1 buyJob.payload 5, .enqueue 43 8 3 9 1 buyJob.payload 5,
    .process (fillOf 42), .process (fillOf 43)]

theorem cap_exceeded : ∃ s ∈ visited (Worker.step onePosition) Worker.empty twoFills,
    ¬ (s.openOrders 3 : Int) ≤ onePosition.defaultMaxPositions :=
  ⟨_, foldl_mem_visited _ _ _, by with_unfolding_all decide⟩

/-- A position is closed between the fills of two accounts. -/
def oneFill : List WorkerStep :=
  [.enqueue 42 7 3 9 1 buyJob.payload 5, .enqueue 43 8 4 9 1 buyJob.payload 5, .process (fillOf 42),
    .close 1 6 "take profit", .process (fillOf 43)]

theorem cap_holds_along_oneFill :
    let s := oneFill.foldl (Worker.step onePosition) Worker.empty
    s.openOrders 3 = 1 ∧ s.openOrders 4 = 1 ∧ ∀ accountId, (s.openOrders accountId : Int) ≤ 1 := by
  refine ⟨by with_unfolding_all decide, by with_unfolding_all decide, ?_⟩
  exact cap_holds_along onePosition oneFill (by decide) (by with_unfolding_all decide) _
    (foldl_mem_visited _ _ _)

end SphereFx.Live
