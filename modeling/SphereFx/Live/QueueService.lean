import SphereFx.Base.Run
import SphereFx.Base.Session
import SphereFx.Live.Process

/-!
# `queue_service.py`

The API's own operations on the queue table. The two guarded updates run as SQL; `claim_job` builds
an ORM object from a raw row instead, and that object never becomes part of the session.
-/

namespace SphereFx.Live

abbrev JobSession := Session LiveJob LiveJob.id

/-! ### The operations -/

/-- The insert of `enqueue_job`, under the primary key and `uq_job_signal_account`. -/
def enqueueJob (job : LiveJob) (jobs : JobTable) : Option JobTable :=
  if job.pair ∈ jobs.rows.map LiveJob.pair then none else jobs.insert? job

/-- `UPDATE .. WHERE id = .. AND status = ..`: whether a row matched, and the table. -/
def guardedUpdate (id : JobId) (status : JobStatus) (f : LiveJob → LiveJob)
    (hf : ∀ job, (f job).id = job.id) (jobs : JobTable) : Bool × JobTable :=
  if (jobs.find? id).any (fun job => job.status = status) then (true, jobs.update id f hf)
  else (false, jobs)

def cancelJob (id : JobId) (now : Nat) (jobs : JobTable) : Bool × JobTable :=
  guardedUpdate id .pending (LiveJob.cancel now) (fun _ => rfl) jobs

def completeJob (id : JobId) (status : JobStatus) (result : Json) (now : Nat) (jobs : JobTable) :
    Bool × JobTable :=
  guardedUpdate id .claimed (LiveJob.finish now status result)
    (LiveJob.id_finish now status result) jobs

/-- The object `claim_job` builds from the row and marks. -/
def LiveJob.markedCopy (claimedAt startedAt : Nat) (row : LiveJob) : LiveJob :=
  { row with status := .claimed, claimedAt := some claimedAt, startedAt := some startedAt }

/-- `claim_job`, with the flush at its end. The object it returns was neither added to the session
nor loaded through it. -/
def claimJob (pick : JobId) (claimedAt startedAt : Nat) (session : JobSession) :
    Option (Option LiveJob × JobSession) :=
  match selectNext session.table pick with
  | none => some (none, session)
  | some row =>
      (session.commit true).map fun session =>
        (some (row.markedCopy claimedAt startedAt), session)

/-- A `claim_job` in a session of its own that is then committed. -/
def committedClaim (pick : JobId) (claimedAt startedAt : Nat) (jobs : JobTable) :
    Option (Option LiveJob × JobTable) :=
  (claimJob pick claimedAt startedAt (Session.start jobs)).bind fun claimed =>
    (claimed.2.commit true).map fun session => (claimed.1, session.table)

/-! ### What they do -/

theorem enqueueJob_eq_some {job : LiveJob} {jobs jobs' : JobTable} :
    enqueueJob job jobs = some jobs' ↔ job.pair ∉ jobs.rows.map LiveJob.pair ∧
      job.id ∉ jobs.rows.map LiveJob.id ∧ jobs'.rows = job :: jobs.rows := by
  unfold enqueueJob
  by_cases hpair : job.pair ∈ jobs.rows.map LiveJob.pair
  · rw [if_pos hpair]
    exact ⟨fun h => (by cases h), fun h => absurd hpair h.1⟩
  · rw [if_neg hpair, Table.insert?_iff]
    exact (and_iff_right hpair).symm

private theorem guardedUpdate_of_status {id : JobId} {status : JobStatus} {f : LiveJob → LiveJob}
    {hf : ∀ job, (f job).id = job.id} {jobs : JobTable} {row : LiveJob}
    (hrow : jobs.find? id = some row) :
    (guardedUpdate id status f hf jobs).1 = true ↔ row.status = status := by
  unfold guardedUpdate
  rw [hrow]
  by_cases h : row.status = status <;> simp [h]

/-- `complete_job` returns `True` exactly for a claimed job. -/
theorem completeJob_iff {id : JobId} {status : JobStatus} {result : Json} {now : Nat}
    {jobs : JobTable} {row : LiveJob} (hrow : jobs.find? id = some row) :
    (completeJob id status result now jobs).1 = true ↔ row.status = .claimed :=
  guardedUpdate_of_status hrow

theorem rows_guardedUpdate {β : Type} (id : JobId) (status : JobStatus) (f : LiveJob → LiveJob)
    (hf : ∀ job, (f job).id = job.id) (jobs : JobTable) (column : LiveJob → β)
    (h : ∀ row, column (f row) = column row) :
    (guardedUpdate id status f hf jobs).2.rows.map column = jobs.rows.map column := by
  unfold guardedUpdate
  split
  · exact @Table.map_update _ _ _ _ id f hf column h
  · rfl

theorem selectNext_eq_none (jobs : JobTable) (pick : JobId) :
    selectNext jobs pick = none ↔ ∀ job ∈ jobs.rows, job.status ≠ .pending := by
  constructor
  · intro hnone job hjob hpending
    have hexists : {row | row ∈ jobs.rows.filter LiveJob.isPending}.Nonempty :=
      ⟨job, List.mem_filter.mpr ⟨hjob, (LiveJob.isPending_iff job).mpr hpending⟩⟩
    obtain ⟨first, hfirst, hleast⟩ :=
      (measure LiveJob.createdAt).wf.has_min _ hexists
    have holdest : first ∈ oldestPending jobs := by
      refine List.mem_filter.mpr ⟨hfirst, List.all_eq_true.mpr fun other hother => ?_⟩
      exact decide_eq_true (Nat.le_of_not_lt (hleast other hother))
    have hhead : (oldestPending jobs).head? = none := by
      unfold selectNext at hnone
      cases hfind : (oldestPending jobs).find? fun job => job.id = pick with
      | none =>
          rw [hfind] at hnone
          exact hnone
      | some found =>
          rw [hfind] at hnone
          cases hnone
    rw [List.head?_eq_none_iff.mp hhead] at holdest
    cases holdest
  · intro h
    cases hselect : selectNext jobs pick with
    | none => rfl
    | some job =>
        obtain ⟨hmem, hpending⟩ := selectNext_mem hselect
        exact absurd hpending (h job hmem)

theorem commit_start (jobs : JobTable) :
    (Session.start jobs : JobSession).commit true = some (Session.start jobs) := by
  show some (Session.mk (jobs.overwrite []) [] [] []) = _
  rw [Table.overwrite_of_subset (List.forall_mem_nil _)]
  rfl

private theorem claimJob_start (pick : JobId) (claimedAt startedAt : Nat) (jobs : JobTable) :
    claimJob pick claimedAt startedAt (Session.start jobs) =
      some ((selectNext jobs pick).map (LiveJob.markedCopy claimedAt startedAt),
        Session.start jobs) := by
  have htable : (Session.start jobs : JobSession).table = jobs := rfl
  unfold claimJob
  rw [htable, commit_start]
  cases selectNext jobs pick with
  | none => rfl
  | some row => rfl

theorem committedClaim_eq (pick : JobId) (claimedAt startedAt : Nat) (jobs : JobTable) :
    committedClaim pick claimedAt startedAt jobs =
      some ((selectNext jobs pick).map (LiveJob.markedCopy claimedAt startedAt), jobs) := by
  rw [committedClaim, claimJob_start, Option.bind_some, commit_start]
  rfl

/-! ### Histories of the table -/

/-- One committed statement on the table: an enqueue, a claim, a recorded outcome or a cancel. -/
inductive QueueEvent where
  | enqueue (id : JobId) (signalId accountId userId : Nat) (lotSize : ℚ) (payload : Json)
      (now : Nat)
  | claim (fault : Option ClaimFault) (pick : JobId) (now : Nat)
  | success (write : StatusWrite) (id : JobId) (result : Json) (now : Nat)
  | failure (write : StatusWrite) (id : JobId) (result : Json) (now : Nat)
  | complete (id : JobId) (status : JobStatus) (result : Json) (now : Nat)
  | cancel (id : JobId) (now : Nat)

/-- The table after the event. An insert that breaks a constraint is refused. -/
def queueStep (jobs : JobTable) : QueueEvent → JobTable
  | .enqueue id signalId accountId userId lotSize payload now =>
      (enqueueJob (.enqueued id signalId accountId userId lotSize payload now) jobs).getD jobs
  | .claim fault pick now => (claimNextJob fault pick now jobs).2
  | .success write id result now => (updateJobStatus write now id .success result jobs).2
  | .failure write id result now => (updateJobStatus write now id .failed result jobs).2
  | .complete id status result now => (completeJob id status result now jobs).2
  | .cancel id now => (cancelJob id now jobs).2

/-- The table after a history that starts with no jobs. -/
def queueAfter (history : List QueueEvent) : JobTable := history.foldl queueStep Table.empty

/-- What the constraint `uq_job_signal_account` says. -/
def OneJobPerPair (jobs : JobTable) : Prop := (jobs.rows.map LiveJob.pair).Nodup

theorem table_claimNextJob (fault : Option ClaimFault) (pick : JobId) (now : Nat)
    (jobs : JobTable) :
    (claimNextJob fault pick now jobs).2 = jobs ∨
      ∃ id, (claimNextJob fault pick now jobs).2 = markClaimed jobs id now := by
  unfold claimNextJob
  split
  · exact Or.inl rfl
  · exact Or.inl rfl
  · split
    · exact Or.inl rfl
    · rename_i row _
      split
      · exact Or.inl rfl
      · rename_i applied _ _
        cases applied with
        | true => exact Or.inr ⟨row.id, rfl⟩
        | false => exact Or.inl rfl
      · exact Or.inr ⟨row.id, rfl⟩

private theorem pair_claimNextJob (fault : Option ClaimFault) (pick : JobId) (now : Nat) (jobs : JobTable) :
    (claimNextJob fault pick now jobs).2.rows.map LiveJob.pair = jobs.rows.map LiveJob.pair := by
  rcases table_claimNextJob fault pick now jobs with h | ⟨id, h⟩
  · rw [h]
  · rw [h]
    exact Table.map_update LiveJob.pair fun _ => rfl

theorem pair_updateJobStatus (write : StatusWrite) (now : Nat) (id : JobId) (status : JobStatus)
    (result : Json) (jobs : JobTable) :
    (updateJobStatus write now id status result jobs).2.rows.map LiveJob.pair =
      jobs.rows.map LiveJob.pair := by
  have hmark : (markFinished jobs id now status result).rows.map LiveJob.pair =
      jobs.rows.map LiveJob.pair := Table.map_update LiveJob.pair fun _ => rfl
  cases write with
  | done => exact hmark
  | failed cause applied =>
      cases applied with
      | true => exact hmark
      | false => rfl

private theorem oneJobPerPair_step {jobs : JobTable} (h : OneJobPerPair jobs) (event : QueueEvent) :
    OneJobPerPair (queueStep jobs event) := by
  unfold OneJobPerPair
  cases event with
  | enqueue id signalId accountId userId lotSize payload now =>
      show List.Nodup (List.map _ (Option.getD (enqueueJob _ jobs) jobs).rows)
      cases hinsert : enqueueJob
          (.enqueued id signalId accountId userId lotSize payload now) jobs with
      | none => exact h
      | some jobs' =>
          obtain ⟨hpair, -, hrows⟩ := enqueueJob_eq_some.mp hinsert
          rw [Option.getD_some, hrows, List.map_cons]
          exact List.nodup_cons.mpr ⟨hpair, h⟩
  | claim fault pick now => exact (pair_claimNextJob fault pick now jobs).symm ▸ h
  | success write id result now =>
      exact (pair_updateJobStatus write now id .success result jobs).symm ▸ h
  | failure write id result now =>
      exact (pair_updateJobStatus write now id .failed result jobs).symm ▸ h
  | complete id status result now =>
      exact (rows_guardedUpdate id .claimed (LiveJob.finish now status result) _ jobs LiveJob.pair
        fun _ => rfl).symm ▸ h
  | cancel id now =>
      exact (rows_guardedUpdate id .pending (LiveJob.cancel now) _ jobs LiveJob.pair
        fun _ => rfl).symm ▸ h

/-- Whatever the history, no pair has two jobs. -/
theorem oneJobPerPair (history : List QueueEvent) : OneJobPerPair (queueAfter history) :=
  have hempty : OneJobPerPair Table.empty := List.nodup_nil
  @visited_invariant _ _ queueStep OneJobPerPair (fun h => oneJobPerPair_step h _) _ history hempty _
    (foldl_mem_visited queueStep Table.empty history)

theorem eq_of_pair {jobs : JobTable} (h : OneJobPerPair jobs) {job other : LiveJob}
    (hjob : job ∈ jobs.rows) (hother : other ∈ jobs.rows) (hpair : job.pair = other.pair) :
    job = other :=
  List.inj_on_of_nodup_map h hjob hother hpair

end SphereFx.Live
