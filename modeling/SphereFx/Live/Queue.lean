import SphereFx.Base.Run
import SphereFx.Base.RowLock
import SphereFx.Live.Job

/-!
# The live queue as interleaved steps

One step is one statement of one party: a `route_signal_to_live` or a cancel request with its
database session, a live worker, or the MT5 bridge with the broker behind it. Any number of requests
and workers run at once, each as one actor, and their steps come in any order. SQL Server's part is
`LockTable`: row locks last to the end of the transaction, `READPAST` sees only unlocked rows, and a
conditional `UPDATE` checks its predicate once it has the lock.

A request to the bridge and the answer to it are messages that may be late or lost. The lists
`posts`, `cancelled`, `accepted` and `faults` are the history the safety statements speak about.
-/

namespace SphereFx.Live

abbrev ActorId := Nat

/-- Where an actor stands in its program. -/
inductive Actor where
  /-- Between two requests, or between two polls of a worker. -/
  | idle
  /-- `route_signal_to_live` has found no active job for the pair. -/
  | routing (signalId accountId userId : Nat)
  /-- `enqueue_job` has flushed the row, which is not committed. -/
  | inserted (id : JobId)
  /-- `cancel_job_endpoint` has read the caller's own job. -/
  | cancelling (id : JobId)
  /-- The `UPDATE` of `cancel_job` matched the row and is not committed. -/
  | cancelled (id : JobId)
  /-- `ClaimNextJob` has begun its transaction. -/
  | begun
  /-- The locking `SELECT` returned the job. -/
  | selected (job : LiveJob)
  /-- The `UPDATE` to `CLAIMED` ran and is not committed. -/
  | claiming (job : LiveJob)
  /-- `ClaimNextJob` returned the job and no order was sent. -/
  | holding (job : LiveJob)
  /-- `executeOrder` has sent the request and waits for the response. -/
  | awaiting (job : LiveJob)
  /-- `executeOrder` returned a result. -/
  | answered (job : LiveJob)
  /-- `UpdateJobStatus` has written `SUCCESS`. -/
  | recorded (job : LiveJob)
  /-- `processErr` is set and the deferred write of `FAILED` is due. -/
  | failing (job : LiveJob)

/-- The job a worker holds as claimed. -/
def Actor.job? : Actor → Option LiveJob
  | .holding job => some job
  | .awaiting job => some job
  | .answered job => some job
  | .recorded job => some job
  | .failing job => some job
  | _ => none

/-- The row an actor's open transaction has locked. -/
def Actor.locked? : Actor → Option JobId
  | .inserted id => some id
  | .cancelled id => some id
  | .selected job => some job.id
  | .claiming job => some job.id
  | _ => none

/-- The actor has a transaction or a session open. -/
def Actor.inTransaction : Actor → Bool
  | .routing .. => true
  | .inserted _ => true
  | .cancelling _ => true
  | .cancelled _ => true
  | .begun => true
  | .selected _ => true
  | .claiming _ => true
  | _ => false

/-- What became of a commit or of a single-statement write, as against what the caller is told. -/
inductive WriteOutcome where
  | done
  | reportsError (applied : Bool)
  deriving DecidableEq, Repr

def WriteOutcome.applied : WriteOutcome → Bool
  | .done => true
  | .reportsError applied => applied

inductive BridgeReply where
  /-- `order_send` returned `TRADE_RETCODE_DONE` and the bridge answered 200 with the fill. -/
  | filled
  /-- `order_send` returned `TRADE_RETCODE_DONE` and an exception turned the answer into a 500. -/
  | filledThenError
  /-- `order_send` did not return `TRADE_RETCODE_DONE`; the answer is not a 200. -/
  | notFilled
  deriving DecidableEq, Repr

def BridgeReply.accepts : BridgeReply → Bool
  | .filled => true
  | .filledThenError => true
  | .notFilled => false

/-- A `POST /execute`, under the job it was sent for. -/
structure Post where
  job : JobId
  signalId : Nat
  accountId : Nat
  deriving DecidableEq, Repr

def Post.pair (post : Post) : Nat × Nat := (post.signalId, post.accountId)

structure Queue where
  rows : LockTable ActorId JobId LiveJob
  actors : ActorId → Actor
  /-- Requests on their way to the bridge. -/
  inFlight : List JobId
  /-- Responses on their way to the worker. -/
  replies : List (JobId × BridgeReply)
  /-- Every request ever sent, newest first. -/
  posts : List Post
  /-- The jobs whose `cancel_job` returned `True` and was committed. -/
  cancelled : List JobId
  /-- The jobs whose order the broker accepted. -/
  accepted : List JobId
  /-- The jobs for which the worker went on without, or in spite of, the broker's answer. -/
  faults : List JobId

/-- One step of one party, with what the environment decides. -/
inductive Action where
  | routeCheck (a : ActorId) (signalId accountId userId : Nat)
  | enqueue (a : ActorId) (id : JobId) (lotSize : ℚ) (payload : Json) (now : Nat)
  | cancelLookup (a : ActorId) (id : JobId) (userId : Nat)
  | cancelUpdate (a : ActorId) (now : Nat)
  | beginTx (a : ActorId)
  | claimNone (a : ActorId)
  | claimSelect (a : ActorId) (id : JobId)
  | claimUpdate (a : ActorId) (now : Nat)
  | commit (a : ActorId) (outcome : WriteOutcome)
  | rollback (a : ActorId)
  | crash (a : ActorId)
  | refuse (a : ActorId)
  | post (a : ActorId)
  | receive (a : ActorId) (reply : BridgeReply) (readable : Bool)
  | timeout (a : ActorId)
  | panic (a : ActorId)
  | writeSuccess (a : ActorId) (now : Nat) (result : Json) (outcome : WriteOutcome)
  | writeFailed (a : ActorId) (now : Nat) (result : Json) (outcome : WriteOutcome)
  | finish (a : ActorId)
  | loseRequest (id : JobId)
  | execute (id : JobId) (reply : BridgeReply)
  | loseReply (id : JobId)

namespace Queue

def empty : Queue where
  rows := ∅
  actors := fun _ => .idle
  inFlight := []
  replies := []
  posts := []
  cancelled := []
  accepted := []
  faults := []

def move (s : Queue) (a : ActorId) (x : Actor) : Queue :=
  { s with actors := Function.update s.actors a x }

/-- The conflict query of `route_signal_to_live`, on committed rows. -/
def hasActiveJob (s : Queue) (signalId accountId : Nat) : Bool :=
  s.rows.entries.any fun entry =>
    entry.2.committed.any fun job => job.pair = (signalId, accountId) && job.isActive

/-- The rows the locking `SELECT` of `ClaimNextJob` chooses from: pending and not locked. -/
def claimable (s : Queue) : List LiveJob :=
  (s.rows.unlocked.map Prod.snd).filter LiveJob.isPending

/-- `ORDER BY created_at ASC` with `TOP 1`: no claimable job is older. -/
def isOldest (s : Queue) (job : LiveJob) : Bool :=
  s.claimable.all fun other => job.createdAt ≤ other.createdAt

/-- The actor's transaction ends without a commit. -/
def abandon (s : Queue) (a : ActorId) : Queue :=
  let rows := match (s.actors a).locked? with
    | some id => s.rows.rollback a id
    | none => s.rows
  { s with rows := rows, actors := Function.update s.actors a .idle }

/-- The table after a commit that was or was not applied. -/
def settleRows (s : Queue) (a : ActorId) (id : JobId) (applied : Bool) :
    LockTable ActorId JobId LiveJob :=
  if applied then s.rows.commit a id else s.rows.rollback a id

/-- `UpdateJobStatus`: the row after a write that was or was not applied. -/
def updateJobStatus (s : Queue) (id : JobId) (now : Nat) (status : JobStatus) (result : Json)
    (applied : Bool) : Option (LockTable ActorId JobId LiveJob) :=
  if applied then s.rows.autocommit id (LiveJob.finish now status result) else some s.rows

/-- The worker goes on to the deferred write although the order may have been accepted. -/
def fault (s : Queue) (a : ActorId) (job : LiveJob) : Queue :=
  { s with actors := Function.update s.actors a (.failing job), faults := job.id :: s.faults }

def step (s : Queue) : Action → Option Queue
  | .routeCheck a signalId accountId userId =>
      match s.actors a with
      | .idle =>
          if s.hasActiveJob signalId accountId then some s
          else some (s.move a (.routing signalId accountId userId))
      | _ => none
  | .enqueue a id lotSize payload now =>
      match s.actors a with
      | .routing signalId accountId userId =>
          if s.rows.allVersions (fun job => job.pair ≠ (signalId, accountId)) then
            (s.rows.insertNew a id
              (LiveJob.enqueued id signalId accountId userId lotSize payload now)).map
              fun rows => { s.move a (.inserted id) with rows := rows }
          else none
      | _ => none
  | .cancelLookup a id userId =>
      match s.actors a with
      | .idle =>
          if (s.rows.committed? id).any (fun job => job.userId = userId) then
            some (s.move a (.cancelling id))
          else some s
      | _ => none
  | .cancelUpdate a now =>
      match s.actors a with
      | .cancelling id =>
          if (s.rows.unlocked.any fun row => row.1 = id && !row.2.isPending) then
            some (s.move a .idle)
          else
            ((s.rows.acquire a id LiveJob.isPending).bind fun rows =>
              rows.rewrite a id (LiveJob.cancel now)).map
              fun rows => { s.move a (.cancelled id) with rows := rows }
      | _ => none
  | .beginTx a =>
      match s.actors a with
      | .idle => some (s.move a .begun)
      | _ => none
  | .claimNone a =>
      match s.actors a with
      | .begun => if s.claimable.isEmpty then some (s.move a .idle) else none
      | _ => none
  | .claimSelect a id =>
      match s.actors a, s.rows.committed? id with
      | .begun, some job =>
          if s.isOldest job then
            (s.rows.acquire a id LiveJob.isPending).map
              fun rows => { s.move a (.selected job) with rows := rows }
          else none
      | _, _ => none
  | .claimUpdate a now =>
      match s.actors a with
      | .selected job =>
          (s.rows.rewrite a job.id (LiveJob.claim now)).map
            fun rows => { s.move a (.claiming (job.claimedCopy now)) with rows := rows }
      | _ => none
  | .commit a outcome =>
      match s.actors a with
      | .inserted id =>
          some { s.move a .idle with rows := s.settleRows a id outcome.applied }
      | .cancelled id =>
          some { s.move a .idle with
            rows := s.settleRows a id outcome.applied
            cancelled := if outcome.applied then id :: s.cancelled else s.cancelled }
      | .claiming job =>
          some { s.move a (if outcome = .done then .holding job else .idle) with
            rows := s.settleRows a job.id outcome.applied }
      | _ => none
  | .rollback a => if (s.actors a).inTransaction then some (s.abandon a) else none
  | .crash a => some (s.abandon a)
  | .refuse a =>
      match s.actors a with
      | .holding job => some (s.move a (.failing job))
      | _ => none
  | .post a =>
      match s.actors a with
      | .holding job =>
          some { s.move a (.awaiting job) with
            inFlight := job.id :: s.inFlight
            posts := ⟨job.id, job.signalId, job.accountId⟩ :: s.posts }
      | _ => none
  | .receive a reply readable =>
      match s.actors a with
      | .awaiting job =>
          if (job.id, reply) ∈ s.replies then
            match reply with
            | .filled => if readable then some (s.move a (.answered job)) else some (s.fault a job)
            | .filledThenError => some (s.fault a job)
            | .notFilled => some (s.move a (.failing job))
          else none
      | _ => none
  | .timeout a =>
      match s.actors a with
      | .awaiting job => some (s.fault a job)
      | _ => none
  | .panic a =>
      match s.actors a with
      | .holding job => some (s.move a (.failing job))
      | .awaiting job => some (s.fault a job)
      | .answered job => some (s.fault a job)
      | .recorded job => some (s.fault a job)
      | _ => none
  | .writeSuccess a now result outcome =>
      match s.actors a with
      | .answered job =>
          (s.updateJobStatus job.id now .success result outcome.applied).map fun rows =>
            if outcome = .done then { s.move a (.recorded job) with rows := rows }
            else { s.fault a job with rows := rows }
      | _ => none
  | .writeFailed a now result outcome =>
      match s.actors a with
      | .failing job =>
          (s.updateJobStatus job.id now .failed result outcome.applied).map fun rows =>
            { s.move a .idle with rows := rows }
      | _ => none
  | .finish a =>
      match s.actors a with
      | .recorded _ => some (s.move a .idle)
      | _ => none
  | .loseRequest id => some { s with inFlight := s.inFlight.filter (· ≠ id) }
  | .execute id reply =>
      if id ∈ s.inFlight then
        some { s with
          inFlight := s.inFlight.filter (· ≠ id)
          replies := (id, reply) :: s.replies
          accepted := if reply.accepts then id :: s.accepted else s.accepted }
      else none
  | .loseReply id => some { s with replies := s.replies.filter (fun reply => reply.1 ≠ id) }

def run (actions : List Action) : Option Queue := runFrom step empty actions

/-! ### What a step can do -/

/-- The order that a step enqueues, if it is an insert. -/
def enqueues (s : Queue) : Action → Option JobOrder
  | .enqueue a _ lotSize payload _ =>
      match s.actors a with
      | .routing signalId accountId userId => some ⟨signalId, accountId, userId, lotSize, payload⟩
      | _ => none
  | _ => none

/-- The effect of a step, whoever takes it. Several actions have the same effect: a worker that times
out and one that panics after its request was sent go on in the same way. Only an insert says more of
its action: which order it enqueues. -/
inductive Effect (s : Queue) (act : Action) : Queue → Prop where
  | stay : Effect s act s
  /-- No row is touched and no job is held afterwards. -/
  | move (a : ActorId) (x : Actor) (hlocked : x.locked? = none) (hjob : x.job? = none) :
      Effect s act (s.move a x)
  | insert {a : ActorId} {job : LiveJob} {rows : LockTable ActorId JobId LiveJob}
      (hstatus : job.status = .pending)
      (hpair : s.rows.allVersions (fun other => other.pair ≠ job.pair) = true)
      (hrows : s.rows.insertNew a job.id job = some rows)
      (horder : s.enqueues act = some job.jobOrder) :
      Effect s act { s.move a (.inserted job.id) with rows := rows }
  | cancel {a : ActorId} {id : JobId} {now : Nat} {rows : LockTable ActorId JobId LiveJob}
      (hrows : ((s.rows.acquire a id LiveJob.isPending).bind fun mid =>
        mid.rewrite a id (LiveJob.cancel now)) = some rows) :
      Effect s act { s.move a (.cancelled id) with rows := rows }
  | select {a : ActorId} {id : JobId} {job : LiveJob} {rows : LockTable ActorId JobId LiveJob}
      (hjob : s.rows.committed? id = some job)
      (hrows : s.rows.acquire a id LiveJob.isPending = some rows) :
      Effect s act { s.move a (.selected job) with rows := rows }
  | claim {a : ActorId} {job : LiveJob} {now : Nat} {rows : LockTable ActorId JobId LiveJob}
      (hx : s.actors a = .selected job)
      (hrows : s.rows.rewrite a job.id (LiveJob.claim now) = some rows) :
      Effect s act { s.move a (.claiming (job.claimedCopy now)) with rows := rows }
  /-- A commit after which the actor holds nothing. -/
  | settle {a : ActorId} {id : JobId} (hid : (s.actors a).locked? = some id) (applied : Bool) :
      Effect s act { s.move a .idle with rows := s.settleRows a id applied }
  | commitCancel {a : ActorId} {id : JobId} (hx : s.actors a = .cancelled id) (applied : Bool) :
      Effect s act { s.move a .idle with
        rows := s.settleRows a id applied
        cancelled := if applied then id :: s.cancelled else s.cancelled }
  | commitClaim {a : ActorId} {job : LiveJob} (hx : s.actors a = .claiming job) :
      Effect s act { s.move a (.holding job) with rows := s.settleRows a job.id true }
  | abandon (a : ActorId) : Effect s act (s.abandon a)
  /-- The worker fails before it has sent an order. -/
  | giveUp {a : ActorId} {job : LiveJob} (hx : s.actors a = .holding job) :
      Effect s act (s.move a (.failing job))
  | post {a : ActorId} {job : LiveJob} (hx : s.actors a = .holding job) :
      Effect s act { s.move a (.awaiting job) with
        inFlight := job.id :: s.inFlight
        posts := ⟨job.id, job.signalId, job.accountId⟩ :: s.posts }
  | answer {a : ActorId} {job : LiveJob} (hx : s.actors a = .awaiting job)
      (hreply : (job.id, .filled) ∈ s.replies) : Effect s act (s.move a (.answered job))
  | reject {a : ActorId} {job : LiveJob} (hx : s.actors a = .awaiting job)
      (hreply : (job.id, .notFilled) ∈ s.replies) : Effect s act (s.move a (.failing job))
  | fault {a : ActorId} {job : LiveJob} (hjob : (s.actors a).job? = some job) :
      Effect s act (s.fault a job)
  | record {a : ActorId} {job : LiveJob} {now : Nat} {result : Json} {applied : Bool}
      {rows : LockTable ActorId JobId LiveJob} (hx : s.actors a = .answered job)
      (hrows : s.updateJobStatus job.id now .success result applied = some rows) :
      Effect s act { s.move a (.recorded job) with rows := rows }
  /-- The worker is told that its `SUCCESS` write failed. -/
  | recordFault {a : ActorId} {job : LiveJob} {now : Nat} {result : Json} {applied : Bool}
      {rows : LockTable ActorId JobId LiveJob} (hx : s.actors a = .answered job)
      (hrows : s.updateJobStatus job.id now .success result applied = some rows) :
      Effect s act { s.fault a job with rows := rows }
  | recordFailed {a : ActorId} {job : LiveJob} {now : Nat} {result : Json} {applied : Bool}
      {rows : LockTable ActorId JobId LiveJob} (hx : s.actors a = .failing job)
      (hrows : s.updateJobStatus job.id now .failed result applied = some rows) :
      Effect s act { s.move a .idle with rows := rows }
  | loseRequest (id : JobId) : Effect s act { s with inFlight := s.inFlight.filter (· ≠ id) }
  | execute {id : JobId} (reply : BridgeReply) (hid : id ∈ s.inFlight) :
      Effect s act { s with
        inFlight := s.inFlight.filter (· ≠ id)
        replies := (id, reply) :: s.replies
        accepted := if reply.accepts then id :: s.accepted else s.accepted }
  | loseReply (id : JobId) :
      Effect s act { s with replies := s.replies.filter (fun reply => reply.1 ≠ id) }

section Effects

-- The equations of `step` are made here, once for all lemmas of the section.
attribute [local simp] step

variable {s s' : Queue} {act : Action} {a : ActorId}

private theorem Effect.fault_of {x : Actor} {job : LiveJob} (hx : s.actors a = x)
    (hjob : x.job? = some job) : s.Effect act (s.fault a job) :=
  .fault (hx ▸ hjob)

private theorem effect_routeCheck {signalId accountId userId : Nat}
    (h : s.step (.routeCheck a signalId accountId userId) = some s') : s.Effect act s' := by
  simp only [step] at h
  split at h
  · split at h <;> cases h
    · exact .stay
    · exact .move a _ rfl rfl
  · cases h

private theorem effect_enqueue {id : JobId} {lotSize : ℚ} {payload : Json} {now : Nat}
    (h : s.step (.enqueue a id lotSize payload now) = some s') :
    s.Effect (.enqueue a id lotSize payload now) s' := by
  simp only [step] at h
  split at h
  · rename_i signalId accountId userId hx
    split at h
    · rename_i hpair
      obtain ⟨rows, hrows, rfl⟩ := Option.map_eq_some_iff.mp h
      have hstatus : (LiveJob.enqueued id signalId accountId userId lotSize payload now).status =
          .pending := rfl
      have horder : s.enqueues (.enqueue a id lotSize payload now) =
          some ⟨signalId, accountId, userId, lotSize, payload⟩ := by
        rw [enqueues, hx]
      exact .insert hstatus hpair hrows horder
    · cases h
  · cases h

private theorem effect_cancelLookup {id : JobId} {userId : Nat}
    (h : s.step (.cancelLookup a id userId) = some s') : s.Effect act s' := by
  simp only [step] at h
  split at h
  · split at h <;> cases h
    · exact .move a _ rfl rfl
    · exact .stay
  · cases h

private theorem effect_cancelUpdate {now : Nat} (h : s.step (.cancelUpdate a now) = some s') :
    s.Effect act s' := by
  simp only [step] at h
  split at h
  · split at h
    · cases h
      exact .move a _ rfl rfl
    · obtain ⟨rows, hrows, rfl⟩ := Option.map_eq_some_iff.mp h
      exact .cancel hrows
  · cases h

private theorem effect_claimSelect {id : JobId} (h : s.step (.claimSelect a id) = some s') :
    s.Effect act s' := by
  simp only [step] at h
  split at h
  · rename_i job hx hjob
    split at h
    · obtain ⟨rows, hrows, rfl⟩ := Option.map_eq_some_iff.mp h
      exact .select hjob hrows
    · cases h
  · cases h

private theorem effect_claimUpdate {now : Nat} (h : s.step (.claimUpdate a now) = some s') :
    s.Effect act s' := by
  simp only [step] at h
  split at h
  · rename_i job hx
    obtain ⟨rows, hrows, rfl⟩ := Option.map_eq_some_iff.mp h
    exact .claim hx hrows
  · cases h

private theorem effect_commit {outcome : WriteOutcome} (h : s.step (.commit a outcome) = some s') :
    s.Effect act s' := by
  simp only [step] at h
  split at h
  · rename_i id hx
    cases h
    exact .settle (hx ▸ rfl) outcome.applied
  · rename_i id hx
    cases h
    exact .commitCancel hx outcome.applied
  · rename_i job hx
    cases h
    cases outcome with
    | done => exact .commitClaim hx
    | reportsError applied => exact .settle (hx ▸ rfl) applied
  · cases h

private theorem effect_receive {reply : BridgeReply} {readable : Bool}
    (h : s.step (.receive a reply readable) = some s') : s.Effect act s' := by
  simp only [step] at h
  split at h
  · rename_i job hx
    split at h
    · rename_i hreply
      split at h
      · split at h <;> cases h
        · exact .answer hx hreply
        · exact .fault_of hx rfl
      · cases h
        exact .fault_of hx rfl
      · cases h
        exact .reject hx hreply
    · cases h
  · cases h

private theorem effect_panic (h : s.step (.panic a) = some s') : s.Effect act s' := by
  simp only [step] at h
  split at h <;> cases h
  · rename_i job hx
    exact .giveUp hx
  all_goals
    rename_i job hx
    exact .fault_of hx rfl

private theorem effect_writeSuccess {now : Nat} {result : Json} {outcome : WriteOutcome}
    (h : s.step (.writeSuccess a now result outcome) = some s') : s.Effect act s' := by
  simp only [step] at h
  split at h
  · rename_i job hx
    obtain ⟨rows, hrows, hs'⟩ := Option.map_eq_some_iff.mp h
    split at hs' <;> subst hs'
    · exact .record hx hrows
    · exact .recordFault hx hrows
  · cases h

private theorem effect_writeFailed {now : Nat} {result : Json} {outcome : WriteOutcome}
    (h : s.step (.writeFailed a now result outcome) = some s') : s.Effect act s' := by
  simp only [step] at h
  split at h
  · rename_i job hx
    obtain ⟨rows, hrows, rfl⟩ := Option.map_eq_some_iff.mp h
    exact .recordFailed hx hrows
  · cases h

theorem effect_of_step (h : s.step act = some s') : s.Effect act s' := by
  cases act with
  | routeCheck a signalId accountId userId => exact effect_routeCheck h
  | enqueue a id lotSize payload now => exact effect_enqueue h
  | cancelLookup a id userId => exact effect_cancelLookup h
  | cancelUpdate a now => exact effect_cancelUpdate h
  | claimSelect a id => exact effect_claimSelect h
  | claimUpdate a now => exact effect_claimUpdate h
  | commit a outcome => exact effect_commit h
  | receive a reply readable => exact effect_receive h
  | panic a => exact effect_panic h
  | writeSuccess a now result outcome => exact effect_writeSuccess h
  | writeFailed a now result outcome => exact effect_writeFailed h
  | crash a =>
      cases h
      exact .abandon a
  | loseRequest id =>
      cases h
      exact .loseRequest id
  | loseReply id =>
      cases h
      exact .loseReply id
  | beginTx a =>
      simp only [step] at h
      split at h <;> cases h
      exact .move a _ rfl rfl
  | claimNone a =>
      simp only [step] at h
      split at h
      · split at h <;> cases h
        exact .move a _ rfl rfl
      · cases h
  | rollback a =>
      simp only [step] at h
      split at h <;> cases h
      exact .abandon a
  | refuse a =>
      simp only [step] at h
      split at h <;> cases h
      rename_i job hx
      exact .giveUp hx
  | post a =>
      simp only [step] at h
      split at h <;> cases h
      rename_i job hx
      exact .post hx
  | timeout a =>
      simp only [step] at h
      split at h <;> cases h
      rename_i job hx
      exact .fault_of hx rfl
  | finish a =>
      simp only [step] at h
      split at h <;> cases h
      exact .move a _ rfl rfl
  | execute id reply =>
      simp only [step] at h
      split at h <;> cases h
      rename_i hid
      exact .execute reply hid

end Effects

end Queue

end SphereFx.Live
