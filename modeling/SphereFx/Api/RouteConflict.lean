import SphereFx.Api.Accounts
import SphereFx.Api.Route
import SphereFx.Api.Signals
import SphereFx.Live.QueueService

/-!
# When `route_signal_to_live` refuses

The handler looks for an active job of the pair, the table refuses any second job of the pair. A job
that has succeeded, failed or been cancelled is not active and still takes the pair, so the insert
after it breaks the constraint and nothing handles that.
-/

namespace SphereFx.Api

open SphereFx.Live

/-! ### The request -/

/-- The body of the request. A lot size has at most four decimals and is not bounded. -/
structure LiveRouteRequest where
  signalId : Nat
  accountId : Nat
  lotSize : Option ℚ
  decimalPlaces : ∀ lot ∈ lotSize, (lot * 10 ^ 4).den = 1

structure LiveJobStatus where
  jobId : JobId
  signalId : Nat
  accountId : Nat
  status : String
  lotSize : ℚ
  result : Option Json
  createdAt : Nat
  finishedAt : Option Nat

/-- The response for a new job, with the defaults of the fields it does not set. -/
def LiveJobStatus.ofNew (job : LiveJob) : LiveJobStatus where
  jobId := job.id
  signalId := job.signalId
  accountId := job.accountId
  status := job.status.text
  lotSize := job.lotSize
  result := none
  createdAt := job.createdAt
  finishedAt := none

def activeAccount (accounts : AccountTable) (userId id : Nat) : Option MT5Account :=
  (accounts.find? id).filter fun account => account.userId = userId ∧ account.isActive = true

/-- `DECIMAL(10, 4)`, for a value with at most four decimals. -/
def fitsLotColumn (lot : ℚ) : Prop := |lot| < 10 ^ 6

instance (lot : ℚ) : Decidable (fitsLotColumn lot) := inferInstanceAs (Decidable (_ < _))

/-- The flush of `enqueue_job`. -/
def flushJob (job : LiveJob) (jobs : JobTable) : Except ApiError JobTable := do
  refuseIf (¬ fitsLotColumn job.lotSize) (.unhandled "DBAPIError")
  match enqueueJob job jobs with
  | none => .error (.unhandled "IntegrityError")
  | some jobs => .ok jobs

def activeJobs (jobs : JobTable) (pair : Nat × Nat) : List LiveJob :=
  jobs.rows.filter fun job => job.pair = pair ∧ job.isActive = true

def alreadyPending : ApiError :=
  .conflict "A pending job already exists for this signal and account"

/-- The part of the handler after the signal and the account were found. -/
def enqueueRouted (job : LiveJob) (jobs : JobTable) :
    Except ApiError (LiveJobStatus × JobTable) := do
  let existing ← scalarOneOrNone (activeJobs jobs job.pair)
  refuseIf (existing.isSome = true) alreadyPending
  let jobs ← flushJob job jobs
  return (.ofNew job, jobs)

/-- `route_signal_to_live` with the end of its session: a raise rolls the insert back. -/
def routeSignalToLive (signals : SignalTable) (accounts : AccountTable) (userId : Nat)
    (request : LiveRouteRequest) (id : JobId) (now : Nat) (jobs : JobTable) :
    Except ApiError LiveJobStatus × JobTable :=
  let outcome := do
    let signal ← orNotFound (ownSignal signals userId request.signalId)
      ("Signal " ++ toString request.signalId ++ " not found or not owned")
    let account ← orNotFound (activeAccount accounts userId request.accountId)
      ("Account " ++ toString request.accountId ++ " not found or inactive")
    enqueueRouted (routedJob id request.lotSize signal account userId now) jobs
  match outcome with
  | .error err => (.error err, jobs)
  | .ok (status, jobs) => (.ok status, jobs)

/-- A new pending job if none of the pair is active, and a conflict otherwise. -/
structure RefusesActive (jobs : JobTable) (pair : Nat × Nat)
    (result : Except ApiError LiveJobStatus × JobTable) : Prop where
  refused : (∃ job ∈ jobs.rows, job.pair = pair ∧ job.isActive = true) →
    result = (.error alreadyPending, jobs)
  stored : (¬ ∃ job ∈ jobs.rows, job.pair = pair ∧ job.isActive = true) →
    ∃ job, job.pair = pair ∧ job.status = .pending ∧ result.1 = .ok (.ofNew job) ∧
      result.2.rows = job :: jobs.rows

/-! ### The lot size -/

private theorem fitsLotColumn_jobLot (requested : Option ℚ) (signal : Signal) (account : MT5Account) :
    fitsLotColumn (jobLot requested signal account) ↔ ∀ lot ∈ requested, fitsLotColumn lot := by
  cases requested with
  | some lot => exact ⟨fun h lot' hlot => Option.some.inj hlot ▸ h, fun h => h lot rfl⟩
  | none =>
      obtain ⟨hlow, hhigh⟩ := normalizeLot_bounds (riskLot signal account)
      refine ⟨fun _ _ hlot => (nomatch hlot), fun _ => ?_⟩
      show |normalizeLot (riskLot signal account) (1 / 100) 100 (1 / 100)| < 10 ^ 6
      rw [abs_of_nonneg (by linarith)]
      linarith

/-! ### The two mechanisms -/

theorem mem_activeJobs {jobs : JobTable} {pair : Nat × Nat} {job : LiveJob} :
    job ∈ activeJobs jobs pair ↔ job ∈ jobs.rows ∧ job.pair = pair ∧ job.isActive = true := by
  simp only [activeJobs, List.mem_filter, decide_eq_true_eq]

private theorem activeJobs_of_mem {jobs : JobTable} (h : OneJobPerPair jobs) {pair : Nat × Nat}
    {job : LiveJob} (hjob : job ∈ activeJobs jobs pair) : activeJobs jobs pair = [job] := by
  have hnodup : (activeJobs jobs pair).Nodup := h.of_map.filter _
  by_contra hne
  rcases (hnodup.ne_singleton_iff job).mp hne with hnil | ⟨other, hother, hother'⟩
  · exact absurd (hnil ▸ hjob) List.not_mem_nil
  · obtain ⟨hmem, hpair, -⟩ := mem_activeJobs.mp hjob
    obtain ⟨hmem', hpair', -⟩ := mem_activeJobs.mp hother
    exact hother' (eq_of_pair h hmem' hmem (hpair'.trans hpair.symm))

private theorem enqueueRouted_of_active {jobs : JobTable} (h : OneJobPerPair jobs) {job : LiveJob}
    (hactive : ∃ other ∈ jobs.rows, other.pair = job.pair ∧ other.isActive = true) :
    enqueueRouted job jobs = .error alreadyPending := by
  obtain ⟨other, hother, hpair, hisActive⟩ := hactive
  have hrows := activeJobs_of_mem h (mem_activeJobs.mpr ⟨hother, hpair, hisActive⟩)
  unfold enqueueRouted
  rw [hrows]
  rfl

theorem enqueueRouted_of_inactive {jobs : JobTable} {job : LiveJob}
    (hinactive : ¬ ∃ other ∈ jobs.rows, other.pair = job.pair ∧ other.isActive = true) :
    enqueueRouted job jobs = (flushJob job jobs).map fun jobs => (.ofNew job, jobs) := by
  have hrows : activeJobs jobs job.pair = [] := by
    refine List.eq_nil_iff_forall_not_mem.mpr fun other hother => hinactive ?_
    exact ⟨other, mem_activeJobs.mp hother⟩
  unfold enqueueRouted
  rw [hrows]
  cases flushJob job jobs <;> rfl

theorem flushJob_eq_ok {job : LiveJob} {jobs jobs' : JobTable} :
    flushJob job jobs = .ok jobs' ↔ fitsLotColumn job.lotSize ∧ enqueueJob job jobs = some jobs' := by
  unfold flushJob
  rw [bind_eq_ok]
  constructor
  · rintro ⟨_, hfits, hinsert⟩
    refine ⟨not_not.mp (refuseIf_eq_ok.mp hfits), ?_⟩
    cases hjobs : enqueueJob job jobs with
    | none =>
        rw [hjobs] at hinsert
        cases hinsert
    | some table =>
        rw [hjobs] at hinsert
        exact congrArg some (Except.ok.inj hinsert)
  · rintro ⟨hfits, hinsert⟩
    exact ⟨(), refuseIf_eq_ok.mpr (not_not.mpr hfits), by rw [hinsert]⟩

theorem routeSignalToLive_eq {signals : SignalTable} {accounts : AccountTable} {userId : Nat}
    {request : LiveRouteRequest} {signal : Signal} {account : MT5Account} {id : JobId} {now : Nat}
    {jobs : JobTable} (hsignal : ownSignal signals userId request.signalId = some signal)
    (haccount : activeAccount accounts userId request.accountId = some account) :
    routeSignalToLive signals accounts userId request id now jobs =
      match enqueueRouted (routedJob id request.lotSize signal account userId now) jobs with
      | .error err => (.error err, jobs)
      | .ok (status, jobs) => (.ok status, jobs) := by
  simp only [routeSignalToLive, hsignal, haccount]
  rfl

/-- For a signal and an account of the user, the handler does what it declares exactly when no job of
the pair has ended and the requested lot size fits its column or is not reached. -/
theorem refusesActive_iff (history : List QueueEvent) (signals : SignalTable)
    (accounts : AccountTable) (userId : Nat) (request : LiveRouteRequest) (signal : Signal)
    (account : MT5Account) (id : JobId) (now : Nat)
    (hsignal : ownSignal signals userId request.signalId = some signal)
    (haccount : activeAccount accounts userId request.accountId = some account)
    (hid : id ∉ (queueAfter history).rows.map LiveJob.id) :
    RefusesActive (queueAfter history) (signal.id, account.id)
        (routeSignalToLive signals accounts userId request id now (queueAfter history)) ↔
      (∃ job ∈ (queueAfter history).rows,
        job.pair = (signal.id, account.id) ∧ job.isActive = true) ∨
      (∀ job ∈ (queueAfter history).rows, job.pair ≠ (signal.id, account.id)) ∧
        ∀ lot ∈ request.lotSize, fitsLotColumn lot := by
  set jobs := queueAfter history with hjobs
  have hunique : OneJobPerPair jobs := oneJobPerPair history
  set job := routedJob id request.lotSize signal account userId now with hjob
  have hpair : job.pair = (signal.id, account.id) := rfl
  rw [routeSignalToLive_eq hsignal haccount, ← hpair, ← hjob,
    ← fitsLotColumn_jobLot request.lotSize signal account]
  by_cases hactive : ∃ other ∈ jobs.rows, other.pair = job.pair ∧ other.isActive = true
  · rw [enqueueRouted_of_active hunique hactive]
    exact ⟨fun _ => Or.inl hactive, fun _ => ⟨fun _ => rfl, fun h => absurd hactive h⟩⟩
  · rw [enqueueRouted_of_inactive hactive, or_iff_right hactive]
    have hflush : (∃ jobs', flushJob job jobs = .ok jobs') ↔
        (∀ other ∈ jobs.rows, other.pair ≠ job.pair) ∧ fitsLotColumn job.lotSize := by
      constructor
      · rintro ⟨jobs', hok⟩
        obtain ⟨hfits, hinsert⟩ := flushJob_eq_ok.mp hok
        refine ⟨fun other hother heq => (enqueueJob_eq_some.mp hinsert).1 ?_, hfits⟩
        exact heq ▸ List.mem_map_of_mem hother
      · rintro ⟨hfree, hfits⟩
        have hfresh : job.id ∉ jobs.rows.map LiveJob.id := hid
        refine ⟨⟨job :: jobs.rows, List.nodup_cons.mpr ⟨hfresh, jobs.unique⟩⟩,
          flushJob_eq_ok.mpr ⟨hfits, enqueueJob_eq_some.mpr ⟨fun hmem => ?_, hfresh, rfl⟩⟩⟩
        obtain ⟨other, hother, heq⟩ := List.mem_map.mp hmem
        exact hfree other hother heq
    rw [show jobLot request.lotSize signal account = job.lotSize from rfl, ← hflush]
    constructor
    · intro h
      obtain ⟨_, -, -, hok, -⟩ := h.stored hactive
      cases hresult : flushJob job jobs with
      | error err =>
          rw [hresult] at hok
          cases hok
      | ok jobs' => exact ⟨jobs', rfl⟩
    · rintro ⟨jobs', hok⟩
      obtain ⟨-, -, hrows⟩ := enqueueJob_eq_some.mp (flushJob_eq_ok.mp hok).2
      rw [hok]
      exact ⟨fun h => absurd h hactive, fun _ => ⟨job, rfl, rfl, rfl, hrows⟩⟩

def ownSignals : SignalTable := ⟨[nearTarget], List.nodup_singleton _⟩

def ownAccounts : AccountTable := ⟨[demoAccount], List.nodup_singleton _⟩

def routeHalfLot : LiveRouteRequest where
  signalId := 7
  accountId := 3
  lotSize := some (1 / 2)
  decimalPlaces := by
    intro lot hlot
    obtain rfl := Option.some.inj hlot
    with_unfolding_all decide

/-- The job of the pair was claimed and failed. -/
def failedOnce : List QueueEvent :=
  [.enqueue 41 7 3 9 (1 / 2) (.obj []) 1, .claim none 41 2, .failure .done 41 .null 3]

def routedHalfLot : LiveJob := routedJob 42 (some (1 / 2)) nearTarget demoAccount 9 5

/-- A job of another signal has failed, one of another account is done, and a third one waits. -/
def otherPairs : List QueueEvent :=
  [.enqueue 38 8 3 9 (1 / 2) (.obj []) 1, .claim none 38 2, .failure .done 38 .null 3,
    .enqueue 39 7 4 9 (1 / 2) (.obj []) 3, .claim none 39 4, .success .done 39 .null 5,
    .enqueue 40 8 4 9 (1 / 2) (.obj []) 5]

theorem refusesActive_iff_of_newPair :
    (queueAfter otherPairs).rows.map LiveJob.status = [.pending, .success, .failed] ∧
    RefusesActive (queueAfter otherPairs) (7, 3)
      (routeSignalToLive ownSignals ownAccounts 9 routeHalfLot 42 5 (queueAfter otherPairs)) := by
  have hlot : ∀ lot ∈ routeHalfLot.lotSize, fitsLotColumn lot := by
    intro lot hlot
    obtain rfl := Option.some.inj hlot
    with_unfolding_all decide
  have hfree : ∀ job ∈ (queueAfter otherPairs).rows, job.pair ≠ (7, 3) := by decide
  exact ⟨by decide, (refusesActive_iff otherPairs ownSignals ownAccounts 9 routeHalfLot nearTarget
    demoAccount 42 5 rfl rfl (by decide)).mpr (Or.inr ⟨hfree, hlot⟩)⟩

/-- No job of the pair is active, and the route fails with the database's error. -/
theorem failed_job_blocks_pair :
    (¬ ∃ job ∈ (queueAfter failedOnce).rows, job.pair = (7, 3) ∧ job.isActive = true) ∧
    routeSignalToLive ownSignals ownAccounts 9 routeHalfLot 42 5 (queueAfter failedOnce) =
      (.error (.unhandled "IntegrityError"), queueAfter failedOnce) := by
  have hinactive : ¬ ∃ job ∈ (queueAfter failedOnce).rows,
      job.pair = (7, 3) ∧ job.isActive = true := by decide
  have hfits : ¬ ¬ fitsLotColumn routedHalfLot.lotSize := by
    show ¬ ¬ fitsLotColumn (1 / 2)
    with_unfolding_all decide
  have hflush : flushJob routedHalfLot (queueAfter failedOnce) =
      .error (.unhandled "IntegrityError") := by
    unfold flushJob refuseIf
    rw [if_neg hfits]
    rfl
  have hrouted : enqueueRouted routedHalfLot (queueAfter failedOnce) =
      .error (.unhandled "IntegrityError") := by
    rw [enqueueRouted_of_inactive hinactive, hflush]
    rfl
  have hsignal : ownSignal ownSignals 9 routeHalfLot.signalId = some nearTarget := rfl
  have haccount : activeAccount ownAccounts 9 routeHalfLot.accountId = some demoAccount := rfl
  refine ⟨hinactive, ?_⟩
  rw [routeSignalToLive_eq hsignal haccount]
  show (match enqueueRouted routedHalfLot (queueAfter failedOnce) with
    | .error err => _
    | .ok (status, jobs) => _) = _
  rw [hrouted]

end SphereFx.Api
