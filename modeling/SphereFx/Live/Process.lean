import SphereFx.Base.Table
import SphereFx.Live.OrderSafety

/-!
# One run of `ProcessNextJob`

The worker on its own: `ClaimNextJob`, the risk checks, `executeOrder` and the two status writes,
with the deferred closure that turns an error or a panic into `FAILED`. What the database, the
network and the Go runtime do is given by the environment of the run.
-/

namespace SphereFx.Live

abbrev JobTable := Table LiveJob LiveJob.id

/-! ### Claiming -/

inductive ClaimFault where
  | begin (cause : String)
  | scan (cause : String)
  | update (cause : String)
  | commit (cause : String) (applied : Bool)
  deriving DecidableEq, Repr

/-- The pending rows with the least `created_at`, any of which `TOP 1` may return. -/
def oldestPending (jobs : JobTable) : List LiveJob :=
  let pending := jobs.rows.filter LiveJob.isPending
  pending.filter fun job => pending.all fun other => job.createdAt ≤ other.createdAt

/-- The row the locking `SELECT` returns, `pick` being the one that SQL Server prefers. -/
def selectNext (jobs : JobTable) (pick : JobId) : Option LiveJob :=
  ((oldestPending jobs).find? fun job => job.id = pick) <|> (oldestPending jobs).head?

def markClaimed (jobs : JobTable) (id : JobId) (now : Nat) : JobTable :=
  jobs.update id (LiveJob.claim now) (LiveJob.id_claim now)

/-- `ClaimNextJob`: what it returns, and the table afterwards. -/
def claimNextJob (fault : Option ClaimFault) (pick : JobId) (now : Nat) (jobs : JobTable) :
    Except String (Option LiveJob) × JobTable :=
  match fault with
  | some (.begin cause) => (.error ("begin tx: " ++ cause), jobs)
  | some (.scan cause) => (.error ("scan job: " ++ cause), jobs)
  | fault =>
      match selectNext jobs pick with
      | none => (.ok none, jobs)
      | some job =>
          match fault with
          | some (.update cause) => (.error ("update job to CLAIMED: " ++ cause), jobs)
          | some (.commit cause applied) =>
              (.error ("commit claim: " ++ cause),
                if applied then markClaimed jobs job.id now else jobs)
          | _ => (.ok (some (job.claimedCopy now)), markClaimed jobs job.id now)

/-! ### Sending the order -/

inductive HttpOutcome where
  | badRequest (cause : String)
  | transport (cause : String)
  | unreadable (cause : String)
  | response (status : Nat) (body : String) (parsed : Except String Json)

/-- `json.Unmarshal` of the response into a map, and the check for an error field. A `null` body is
a nil map, which is marshalled as `null` again. -/
def parseResponse (v : Json) : Except String Json := do
  let result ← v.unmarshalMap.mapError ("parse MT5 response: " ++ ·)
  match (Json.index result "error").string? with
  | some message =>
      if message ≠ "" then .error ("MT5 Bridge error: " ++ message) else .ok v.remarshal
  | none => .ok v.remarshal

/-- `executeOrder`, answering the result as `json.Marshal` writes it. -/
def executeOrder (job : LiveJob) (http : HttpOutcome) : Except String Json := do
  let _payload ← job.payload.unmarshalMap.mapError ("invalid payload: " ++ ·)
  match http with
  | .badRequest cause => .error ("create request: " ++ cause)
  | .transport cause => .error ("HTTP request to MT5 Bridge: " ++ cause)
  | .unreadable cause => .error ("read response body: " ++ cause)
  | .response status body parsed =>
      if status ≠ 200 then .error ("MT5 Bridge returned " ++ toString status ++ ": " ++ body)
      else (parsed.mapError ("parse MT5 response: " ++ ·)).bind parseResponse

/-! ### Recording the outcome -/

inductive StatusWrite where
  | done
  | failed (cause : String) (applied : Bool)
  deriving DecidableEq, Repr

def markFinished (jobs : JobTable) (id : JobId) (now : Nat) (status : JobStatus) (result : Json) :
    JobTable :=
  jobs.update id (LiveJob.finish now status result) (LiveJob.id_finish now status result)

/-- `UpdateJobStatus`: the error it returns and the table afterwards. -/
def updateJobStatus (write : StatusWrite) (now : Nat) (id : JobId) (status : JobStatus)
    (result : Json) (jobs : JobTable) : Option String × JobTable :=
  match write with
  | .done => (none, markFinished jobs id now status result)
  | .failed cause applied =>
      (some ("update job status: " ++ cause),
        if applied then markFinished jobs id now status result else jobs)

/-- Where the code after the claim panics, if it does. -/
inductive PanicPoint where
  | claimedLog
  | validate
  | execute
  | marshal
  | writeSuccess
  | completedLog
  deriving DecidableEq, Repr

/-- Everything outside the worker in one run of `ProcessNextJob`. -/
structure Env where
  claimFault : Option ClaimFault
  pick : JobId
  now : Nat
  data : AccountData
  failures : QueryFailures
  http : HttpOutcome
  panicAt : Option PanicPoint
  panicValue : String
  successWrite : StatusWrite
  failedWrite : StatusWrite

/-- How the body of `ProcessNextJob` leaves to the deferred closure. -/
inductive BodyExit where
  | completed
  | failed (processErr : String)
  | panicked
  deriving DecidableEq, Repr

def processBody (cfg : Config) (env : Env) (job : LiveJob) (jobs : JobTable) :
    BodyExit × JobTable :=
  if env.panicAt = some .validate then (.panicked, jobs)
  else
    match validateJob cfg env.data env.failures job with
    | .error err => (.failed ("risk validation failed: " ++ err.text), jobs)
    | .ok () =>
        if env.panicAt = some .execute then (.panicked, jobs)
        else
          match executeOrder job env.http with
          | .error err => (.failed ("MT5 execution failed: " ++ err), jobs)
          | .ok result =>
              if env.panicAt = some .marshal ∨ env.panicAt = some .writeSuccess then
                (.panicked, jobs)
              else
                match updateJobStatus env.successWrite env.now job.id .success result jobs with
                | (some err, jobs) => (.failed ("failed to update job status: " ++ err), jobs)
                | (none, jobs) =>
                    if env.panicAt = some .completedLog then (.panicked, jobs)
                    else (.completed, jobs)

/-- The `processErr` the deferred closure finds, after `recover`. -/
def BodyExit.processErr (panicValue : String) : BodyExit → Option String
  | .completed => none
  | .failed err => some err
  | .panicked => some ("panic: " ++ panicValue)

/-- How `ProcessNextJob` ends: by returning, with an error or without, or by a panic that nothing
recovers. -/
inductive Ending where
  | returned (err : Option String)
  | crashed
  deriving DecidableEq, Repr

def BodyExit.ending : BodyExit → Ending
  | .completed => .returned none
  | .failed err => .returned (some err)
  | .panicked => .returned none

def errorResult (err : String) : Json := .obj [("error", .str err)]

/-- The processing of a claimed job, with the deferred closure. -/
def processClaimed (cfg : Config) (env : Env) (job : LiveJob) (jobs : JobTable) :
    Ending × JobTable :=
  if env.panicAt = some .claimedLog then (.crashed, jobs)
  else
    let body := processBody cfg env job jobs
    match body.1.processErr env.panicValue with
    | none => (body.1.ending, body.2)
    | some err =>
        (body.1.ending,
          (updateJobStatus env.failedWrite env.now job.id .failed (errorResult err) body.2).2)

def processNextJob (cfg : Config) (env : Env) (jobs : JobTable) : Ending × JobTable :=
  match claimNextJob env.claimFault env.pick env.now jobs with
  | (.error err, jobs) => (.returned (some ("claim job: " ++ err)), jobs)
  | (.ok none, jobs) => (.returned none, jobs)
  | (.ok (some job), jobs) => processClaimed cfg env job jobs

/-! ### The two updates -/

theorem find?_markClaimed {jobs : JobTable} {id : JobId} {row : LiveJob}
    (h : jobs.find? id = some row) (now : Nat) :
    (markClaimed jobs id now).find? id = some (row.claim now) :=
  Table.find?_update_self h

theorem find?_markClaimed_of_ne {jobs : JobTable} {id other : JobId} (h : other ≠ id) (now : Nat) :
    (markClaimed jobs id now).find? other = jobs.find? other :=
  Table.find?_update_of_ne h

theorem find?_markFinished {jobs : JobTable} {id : JobId} {row : LiveJob}
    (h : jobs.find? id = some row) (now : Nat) (status : JobStatus) (result : Json) :
    (markFinished jobs id now status result).find? id = some (row.finish now status result) :=
  Table.find?_update_self h

theorem find?_markFinished_of_ne {jobs : JobTable} {id other : JobId} (h : other ≠ id) (now : Nat)
    (status : JobStatus) (result : Json) :
    (markFinished jobs id now status result).find? other = jobs.find? other :=
  Table.find?_update_of_ne h

/-! ### What a claim does -/

theorem selectNext_mem {jobs : JobTable} {pick : JobId} {job : LiveJob}
    (h : selectNext jobs pick = some job) : job ∈ jobs.rows ∧ job.status = .pending := by
  have hmem : job ∈ oldestPending jobs := by
    unfold selectNext at h
    cases hfind : (oldestPending jobs).find? fun job => job.id = pick with
    | some found =>
        rw [hfind] at h
        cases h
        exact List.mem_of_find?_eq_some hfind
    | none =>
        rw [hfind] at h
        exact List.mem_of_mem_head? h
  have hpending := List.mem_of_mem_filter hmem
  exact ⟨List.mem_of_mem_filter hpending, (LiveJob.isPending_iff job).mp (List.mem_filter.mp hpending).2⟩

theorem claimNextJob_eq_some {fault : Option ClaimFault} {pick : JobId} {now : Nat}
    {jobs jobs' : JobTable} {job : LiveJob}
    (h : claimNextJob fault pick now jobs = (.ok (some job), jobs')) :
    ∃ row, selectNext jobs pick = some row ∧ job = row.claimedCopy now ∧
      jobs' = markClaimed jobs row.id now := by
  unfold claimNextJob at h
  split at h
  · cases h
  · cases h
  · split at h
    · cases h
    · rename_i row hrow
      split at h
      · cases h
      · cases h
      · cases h
        exact ⟨row, hrow, rfl, rfl⟩

private theorem find?_of_claimed {fault : Option ClaimFault} {pick : JobId} {now : Nat}
    {jobs jobs' : JobTable} {job : LiveJob}
    (h : claimNextJob fault pick now jobs = (.ok (some job), jobs')) :
    (∃ row, jobs'.find? job.id = some row) ∧ ∀ id ≠ job.id, jobs'.find? id = jobs.find? id := by
  obtain ⟨row, hselect, rfl, rfl⟩ := claimNextJob_eq_some h
  have hrow : jobs.find? row.id = some row :=
    Table.find?_eq_some.mpr ⟨(selectNext_mem hselect).1, rfl⟩
  exact ⟨⟨_, find?_markClaimed hrow now⟩, fun id hid => find?_markClaimed_of_ne hid now⟩

/-! ### How a claimed job ends -/

/-- The result `executeOrder` returned, if it was called and returned one. -/
def orderResult (cfg : Config) (env : Env) (job : LiveJob) : Option Json :=
  if env.panicAt = some .validate ∨ env.panicAt = some .execute then none
  else
    match validateJob cfg env.data env.failures job with
    | .error _ => none
    | .ok () => (executeOrder job env.http).toOption

/-- A panic after `executeOrder` returned. -/
def PanicsLater (env : Env) : Prop :=
  env.panicAt = some .marshal ∨ env.panicAt = some .writeSuccess ∨ env.panicAt = some .completedLog

instance (env : Env) : Decidable (PanicsLater env) := inferInstanceAs (Decidable (_ ∨ _))

/-- The table the body leaves: as it was, or with the success written. -/
def BodyTable (env : Env) (job : LiveJob) (jobs jobs' : JobTable) : Prop :=
  jobs' = jobs ∨ ∃ result,
    jobs' = markFinished jobs job.id env.now .success result

theorem processBody_table (cfg : Config) (env : Env) (job : LiveJob) (jobs : JobTable) :
    BodyTable env job jobs (processBody cfg env job jobs).2 := by
  unfold processBody
  split
  · exact Or.inl rfl
  split
  · exact Or.inl rfl
  split
  · exact Or.inl rfl
  split
  · exact Or.inl rfl
  rename_i result _
  split
  · exact Or.inl rfl
  cases hwrite : env.successWrite with
  | done =>
      refine Or.inr ⟨result, ?_⟩
      simp only [updateJobStatus]
      split <;> rfl
  | failed cause applied =>
      cases applied with
      | true => exact Or.inr ⟨result, rfl⟩
      | false => exact Or.inl rfl

/-- The two ways the body ends when the success write does what it is told. -/
private theorem processBody_cases {cfg : Config} {env : Env} {job : LiveJob} {jobs : JobTable}
    (hwrite : env.successWrite = .done) :
    (∃ result, orderResult cfg env job = some result ∧ ¬ PanicsLater env ∧
      processBody cfg env job jobs =
        (.completed, markFinished jobs job.id env.now .success result)) ∨
    ((orderResult cfg env job = none ∨ PanicsLater env) ∧
      (processBody cfg env job jobs).1 ≠ .completed) := by
  unfold processBody orderResult
  by_cases hvalidate : env.panicAt = some .validate
  · rw [if_pos hvalidate, if_pos (Or.inl hvalidate)]
    exact Or.inr ⟨Or.inl rfl, fun h => (by cases h)⟩
  rw [if_neg hvalidate]
  cases hrisk : validateJob cfg env.data env.failures job with
  | error err =>
      refine Or.inr ⟨Or.inl ?_, fun h => (by cases h)⟩
      split <;> rfl
  | ok _ =>
      simp only
      by_cases hexecute : env.panicAt = some .execute
      · rw [if_pos hexecute, if_pos (Or.inr hexecute)]
        exact Or.inr ⟨Or.inl rfl, fun h => (by cases h)⟩
      rw [if_neg hexecute, if_neg (not_or.mpr ⟨hvalidate, hexecute⟩)]
      cases horder : executeOrder job env.http with
      | error err => exact Or.inr ⟨Or.inl rfl, fun h => (by cases h)⟩
      | ok result =>
          simp only
          by_cases hearly : env.panicAt = some .marshal ∨ env.panicAt = some .writeSuccess
          · rw [if_pos hearly]
            refine Or.inr ⟨Or.inr ?_, fun h => (by cases h)⟩
            exact hearly.elim Or.inl fun h => Or.inr (Or.inl h)
          rw [if_neg hearly, hwrite]
          simp only [updateJobStatus]
          by_cases hlog : env.panicAt = some .completedLog
          · rw [if_pos hlog]
            exact Or.inr ⟨Or.inr (Or.inr (Or.inr hlog)), fun h => (by cases h)⟩
          · rw [if_neg hlog]
            refine Or.inl ⟨result, rfl, ?_, rfl⟩
            rintro (h | h | h)
            · exact hearly (Or.inl h)
            · exact hearly (Or.inr h)
            · exact hlog h

theorem BodyTable.find?_self {env : Env} {job row : LiveJob} {jobs jobs' : JobTable}
    (h : BodyTable env job jobs jobs') (hrow : jobs.find? job.id = some row) :
    ∃ row', jobs'.find? job.id = some row' := by
  rcases h with rfl | ⟨result, rfl⟩
  · exact ⟨row, hrow⟩
  · exact ⟨_, find?_markFinished hrow _ _ _⟩

theorem BodyTable.find?_other {env : Env} {job : LiveJob} {jobs jobs' : JobTable}
    (h : BodyTable env job jobs jobs') {id : JobId} (hid : id ≠ job.id) :
    jobs'.find? id = jobs.find? id := by
  rcases h with rfl | ⟨result, rfl⟩
  · rfl
  · exact find?_markFinished_of_ne hid _ _ _

theorem BodyExit.processErr_of_ne {exit : BodyExit} (h : exit ≠ .completed) (panicValue : String) :
    ∃ text, exit.processErr panicValue = some text ∧
      (exit.ending = .returned (some text) ∨
        exit.ending = .returned none ∧ text = "panic: " ++ panicValue) := by
  cases exit with
  | completed => exact absurd rfl h
  | failed err => exact ⟨err, rfl, Or.inl rfl⟩
  | panicked => exact ⟨_, rfl, Or.inr ⟨rfl, rfl⟩⟩

structure EndedWith (row : LiveJob) (status : JobStatus) (result : Json) : Prop where
  status : row.status = status
  result : row.result = some result

/-- When `ProcessNextJob` returns and its status writes did what they were told, the claimed job is
`SUCCESS` with its result if `executeOrder` returned one and nothing panicked after that, it is
`FAILED` with the error otherwise, and no other job has changed. -/
theorem claimed_job_is_resolved (cfg : Config) (env : Env) (jobs claimed jobs' : JobTable)
    (job : LiveJob) (err : Option String)
    (hclaim : claimNextJob env.claimFault env.pick env.now jobs = (.ok (some job), claimed))
    (hsuccess : env.successWrite = .done) (hfailed : env.failedWrite = .done)
    (hrun : processNextJob cfg env jobs = (.returned err, jobs')) :
    (∃ row, jobs'.find? job.id = some row ∧
      ((∃ result, orderResult cfg env job = some result ∧ ¬ PanicsLater env ∧
          EndedWith row .success result) ∨
        (orderResult cfg env job = none ∨ PanicsLater env) ∧ ∃ text,
          EndedWith row .failed (errorResult text) ∧
          (err = some text ∨ err = none ∧ text = "panic: " ++ env.panicValue))) ∧
      ∀ id ≠ job.id, jobs'.find? id = jobs.find? id := by
  obtain ⟨⟨row, hrow⟩, hothers⟩ := find?_of_claimed hclaim
  have hclaimed : processClaimed cfg env job claimed = (.returned err, jobs') := by
    rw [← hrun, processNextJob, hclaim]
  unfold processClaimed at hclaimed
  split at hclaimed
  · cases hclaimed
  rcases @processBody_cases cfg env job claimed hsuccess with
    ⟨result, hresult, hlater, hbody⟩ | ⟨hcondition, hexit⟩
  · rw [hbody] at hclaimed
    cases hclaimed
    refine ⟨⟨_, find?_markFinished hrow _ _ _, Or.inl ⟨result, hresult, hlater, rfl, rfl⟩⟩, ?_⟩
    exact fun id hid => (find?_markFinished_of_ne hid _ _ _).trans (hothers id hid)
  · obtain ⟨text, htext, hending⟩ := BodyExit.processErr_of_ne hexit env.panicValue
    have htable := processBody_table cfg env job claimed
    obtain ⟨row', hrow'⟩ := htable.find?_self hrow
    simp only [htext, hfailed, updateJobStatus] at hclaimed
    obtain ⟨herr, rfl⟩ := Prod.mk.inj hclaimed
    refine ⟨⟨_, find?_markFinished hrow' _ _ _, Or.inr ⟨hcondition, text, ⟨rfl, rfl⟩, ?_⟩⟩, ?_⟩
    · rw [herr] at hending
      rcases hending with h | ⟨h, htext⟩
      · cases h
        exact Or.inl rfl
      · cases h
        exact Or.inr ⟨rfl, htext⟩
    · intro id hid
      have hbody := htable.find?_other hid
      exact (find?_markFinished_of_ne hid _ _ _).trans (hbody.trans (hothers id hid))

def oneJob : JobTable :=
  ⟨[LiveJob.enqueued 42 7 3 9 1 buyJob.payload 5], by decide⟩

/-- The bridge fills the order, and the code may panic after that. -/
def fillEnv (panicAt : Option PanicPoint) : Env where
  claimFault := none
  pick := 42
  now := 6
  data := plainAccount 100000
  failures := .none
  http := .response 200 "" (.ok (.obj [("ticket", .int 1)]))
  panicAt := panicAt
  panicValue := "disk full"
  successWrite := .done
  failedWrite := .done

/-- A panic in the last log line turns a stored `SUCCESS` into `FAILED`. -/
theorem failed_after_result : ∃ job claimed jobs' row,
    claimNextJob none 42 6 oneJob = (.ok (some job), claimed) ∧
    processNextJob defaultConfig (fillEnv (some .completedLog)) oneJob = (.returned none, jobs') ∧
    (orderResult defaultConfig (fillEnv (some .completedLog)) job).isSome = true ∧
    jobs'.find? job.id = some row ∧ row.status = .failed := by
  have hrun : (processNextJob defaultConfig (fillEnv (some .completedLog)) oneJob).1 =
      .returned none := by with_unfolding_all decide
  have hrow : (((processNextJob defaultConfig (fillEnv (some .completedLog)) oneJob).2.find? 42).map
      LiveJob.status) = some .failed := by with_unfolding_all decide
  obtain ⟨row, hfind, hstatus⟩ := Option.map_eq_some_iff.mp hrow
  exact ⟨(LiveJob.enqueued 42 7 3 9 1 buyJob.payload 5).claimedCopy 6, _, _, row, rfl,
    Prod.ext hrun rfl, by with_unfolding_all decide, hfind, hstatus⟩

theorem claimed_job_is_resolved_of_fill : ∃ job claimed jobs' row,
    claimNextJob none 42 6 oneJob = (.ok (some job), claimed) ∧
    processNextJob defaultConfig (fillEnv none) oneJob = (.returned none, jobs') ∧
    jobs'.find? job.id = some row ∧ ∃ result, EndedWith row .success result := by
  have hrun : (processNextJob defaultConfig (fillEnv none) oneJob).1 = .returned none := by
    with_unfolding_all decide
  have hresult : (orderResult defaultConfig (fillEnv none)
      ((LiveJob.enqueued 42 7 3 9 1 buyJob.payload 5).claimedCopy 6)).isSome = true := by
    with_unfolding_all decide
  obtain ⟨⟨row, hrow, hended⟩, -⟩ := claimed_job_is_resolved defaultConfig (fillEnv none) oneJob _ _
    ((LiveJob.enqueued 42 7 3 9 1 buyJob.payload 5).claimedCopy 6) none rfl rfl rfl
    (Prod.ext hrun rfl)
  refine ⟨_, _, _, row, rfl, Prod.ext hrun rfl, hrow, ?_⟩
  rcases hended with ⟨result, -, -, hended⟩ | ⟨hnone | hlater, -⟩
  · exact ⟨result, hended⟩
  · rw [hnone] at hresult
    cases hresult
  · exact absurd hlater (by decide)

end SphereFx.Live
