import SphereFx.Base.Json

/-!
# The `live_jobs` row

The queue table of the live trading path, with the column changes its writers make: `enqueue_job`,
`cancel_job` and `complete_job` on the Python side, `ClaimNextJob` and `UpdateJobStatus` in the
worker. A job id is a uuid4 text of which only equality matters, and times are numbers.
-/

namespace SphereFx.Live

abbrev JobId := Nat

/-- The status column. -/
inductive JobStatus where
  | pending
  | claimed
  | success
  | failed
  | cancelled
  deriving DecidableEq, Repr

/-- The text stored in the column. -/
def JobStatus.text : JobStatus → String
  | .pending => "PENDING"
  | .claimed => "CLAIMED"
  | .success => "SUCCESS"
  | .failed => "FAILED"
  | .cancelled => "CANCELLED"

/-- A worker has claimed the job at some time. -/
def JobStatus.taken : JobStatus → Bool
  | .claimed => true
  | .success => true
  | .failed => true
  | _ => false

/-- A row of `live_jobs`. -/
structure LiveJob where
  id : JobId
  signalId : Nat
  accountId : Nat
  userId : Nat
  lotSize : ℚ
  status : JobStatus
  payload : Json
  result : Option Json
  claimedAt : Option Nat
  startedAt : Option Nat
  finishedAt : Option Nat
  createdAt : Nat
  updatedAt : Option Nat

/-- What a job is for. -/
structure JobOrder where
  signalId : Nat
  accountId : Nat
  userId : Nat
  lotSize : ℚ
  payload : Json

namespace LiveJob

/-- The columns of the unique constraint `uq_job_signal_account`. -/
def pair (job : LiveJob) : Nat × Nat := (job.signalId, job.accountId)

/-- Not yet claimed, cancelled or finished. -/
def isPending (job : LiveJob) : Bool := job.status = .pending

/-- `PENDING` or `CLAIMED`, the statuses `route_signal_to_live` refuses to duplicate. -/
def isActive (job : LiveJob) : Bool := job.status = .pending || job.status = .claimed

/-- The row `enqueue_job` inserts. -/
def enqueued (id : JobId) (signalId accountId userId : Nat) (lotSize : ℚ) (payload : Json)
    (now : Nat) : LiveJob where
  id := id
  signalId := signalId
  accountId := accountId
  userId := userId
  lotSize := lotSize
  status := .pending
  payload := payload
  result := none
  claimedAt := none
  startedAt := none
  finishedAt := none
  createdAt := now
  updatedAt := none

/-- What the `UPDATE` of `cancel_job` sets. -/
def cancel (now : Nat) (job : LiveJob) : LiveJob :=
  { job with status := .cancelled, finishedAt := some now, updatedAt := some now }

/-- What the `UPDATE` of `ClaimNextJob` sets. -/
def claim (now : Nat) (job : LiveJob) : LiveJob :=
  { job with
    status := .claimed, claimedAt := some now, startedAt := some now, updatedAt := some now }

/-- The `Job` value `ClaimNextJob` returns, which keeps the `updated_at` it read. -/
def claimedCopy (now : Nat) (job : LiveJob) : LiveJob :=
  { job with status := .claimed, claimedAt := some now, startedAt := some now }

/-- What the `UPDATE` of `UpdateJobStatus` sets. -/
def finish (now : Nat) (status : JobStatus) (result : Json) (job : LiveJob) : LiveJob :=
  { job with status := status, result := some result, finishedAt := some now, updatedAt := some now }

@[simp] theorem id_claim (now : Nat) (job : LiveJob) : (job.claim now).id = job.id := rfl

@[simp] theorem id_finish (now : Nat) (status : JobStatus) (result : Json) (job : LiveJob) :
    (job.finish now status result).id = job.id := rfl

@[simp] theorem pair_finish (now : Nat) (status : JobStatus) (result : Json) (job : LiveJob) :
    (job.finish now status result).pair = job.pair := rfl

@[simp] theorem status_finish (now : Nat) (status : JobStatus) (result : Json) (job : LiveJob) :
    (job.finish now status result).status = status := rfl

@[simp] theorem isPending_iff (job : LiveJob) : job.isPending = true ↔ job.status = .pending :=
  decide_eq_true_iff

theorem not_isPending_of_taken {job : LiveJob} (h : job.status.taken = true) :
    job.isPending = false := by
  cases hs : job.status <;> simp_all [isPending, JobStatus.taken]

/-! ### What a job is for -/

def jobOrder (job : LiveJob) : JobOrder :=
  ⟨job.signalId, job.accountId, job.userId, job.lotSize, job.payload⟩

@[simp] theorem jobOrder_cancel (now : Nat) (job : LiveJob) :
    (job.cancel now).jobOrder = job.jobOrder := rfl

@[simp] theorem jobOrder_claim (now : Nat) (job : LiveJob) :
    (job.claim now).jobOrder = job.jobOrder := rfl

@[simp] theorem jobOrder_finish (now : Nat) (status : JobStatus) (result : Json) (job : LiveJob) :
    (job.finish now status result).jobOrder = job.jobOrder := rfl

end LiveJob

end SphereFx.Live
