import SphereFx.Live.Mt5Client
import SphereFx.Live.PositionCap
import SphereFx.Live.QueueService

/-!
# The worker and the bridge together

One worker with its queue table on one side, the bridge with its terminal on the other, and the HTTP
requests between them. A request may not be made, may not arrive, may be given up by the worker and
be handled later, or may be answered with a response that cannot be read. The desk keeps the jobs
whose requests the bridge has handled, next to its replies.
-/

namespace SphereFx.Live

/-! ### Requests and responses -/

/-- What the model leaves open of the bridge: which texts pydantic reads as numbers, how JSON is
written, and the body of the 422 that refuses a request. -/
structure BridgeText where
  parseFloat : String → Option F64
  write : Json → String
  refusal : Json → Json

/-- What becomes of a request of the worker. -/
inductive Delivery where
  | unsent (cause : String)
  | unreached (cause : String)
  | abandoned (cause : String)
  | garbled (cause : String)
  | answered

/-- The request that the bridge makes of a job's body, if it accepts the body. -/
def BridgeText.request? (text : BridgeText) (payload : Json) : Option OrderRequest :=
  payload.unmarshalMap.toOption.bind fun fields => validateOrder text.parseFloat (orderBody fields)

def replyBody (order : OrderResponse) (price slippage : ℚ) : Json :=
  .obj [("ticket", .int order.ticket), ("fill_price", .dec price), ("slippage_bps", .dec slippage),
    ("status", .str order.status)]

/-- How a reply is sent. A number that JSON has no text for fails outside the handler. -/
def BridgeText.response (text : BridgeText) : Except String OrderResponse → HttpOutcome
  | .error detail =>
      let body := Json.obj [("detail", .str detail)]
      .response 500 (text.write body) (.ok body)
  | .ok order =>
      match order.fillPrice, order.slippageBps with
      | .fin price, .fin slippage =>
          .response 200 (text.write (replyBody order price slippage))
            (.ok (replyBody order price slippage))
      | _, _ => .response 500 "Internal Server Error" (.error "invalid character 'I'")

/-! ### The desk -/

/-- `late` has the requests that the worker has given up and the bridge has not handled yet. -/
structure Desk where
  jobs : JobTable
  bridge : Mt5Bridge
  late : List (JobId × OrderRequest)
  exchanges : List (JobId × Except String OrderResponse)

/-- A run of `ProcessNextJob` is one event: nobody else writes to the row that it has claimed. -/
inductive DeskEvent where
  | enqueue (id : JobId) (signalId accountId userId : Nat) (lotSize : ℚ) (payload : Json)
      (now : Nat)
  | cancel (id : JobId) (now : Nat)
  | work (cfg : Config) (env : Env) (delivery : Delivery) (answers : TerminalAnswers)
  | late (place : Nat) (answers : TerminalAnswers)
  | health (up : Bool)
  | shutdown

/-- The job whose order a run of `ProcessNextJob` sends: claimed, and let through by the checks. -/
def sends (cfg : Config) (env : Env) (jobs : JobTable) : Option LiveJob :=
  match (claimNextJob env.claimFault env.pick env.now jobs).1 with
  | .ok (some job) =>
      if env.panicAt = some .claimedLog ∨ env.panicAt = some .validate then none
      else (validateJob cfg env.data env.failures job).toOption.map fun _ => job
  | _ => none

namespace Desk

def start : Desk := ⟨Table.empty, .start, [], []⟩

/-- The bridge handles a request. -/
def handle (answers : TerminalAnswers) (id : JobId) (request : OrderRequest) (d : Desk) : Desk :=
  { d with
    bridge := d.bridge.step (.execute request answers)
    exchanges := d.exchanges ++ [(id, executeReply (sendOrder request answers d.bridge).1)] }

/-- What the worker gets for its request, and the desk after it. -/
def exchange (text : BridgeText) (delivery : Delivery) (answers : TerminalAnswers) (job : LiveJob)
    (d : Desk) : HttpOutcome × Desk :=
  match delivery, text.request? job.payload with
  | .unsent cause, _ => (.badRequest cause, d)
  | .unreached cause, _ => (.transport cause, d)
  | .abandoned cause, none => (.transport cause, d)
  | .abandoned cause, some request =>
      (.transport cause, { d with late := d.late ++ [(job.id, request)] })
  | .garbled cause, none => (.unreadable cause, d)
  | .garbled cause, some request => (.unreadable cause, d.handle answers job.id request)
  | .answered, none =>
      (.response 422 (text.write (text.refusal job.payload)) (.ok (text.refusal job.payload)), d)
  | .answered, some request =>
      (text.response (executeReply (sendOrder request answers d.bridge).1),
        d.handle answers job.id request)

def step (text : BridgeText) (d : Desk) : DeskEvent → Desk
  | .enqueue id signalId accountId userId lotSize payload now =>
      { d with jobs := (enqueueJob
          (.enqueued id signalId accountId userId lotSize payload now) d.jobs).getD d.jobs }
  | .cancel id now => { d with jobs := (cancelJob id now d.jobs).2 }
  | .work cfg env delivery answers =>
      match sends cfg env d.jobs with
      | none => { d with jobs := (processNextJob cfg env d.jobs).2 }
      | some job =>
          let (http, after) := d.exchange text delivery answers job
          { after with jobs := (processNextJob cfg { env with http := http } d.jobs).2 }
  | .late place answers =>
      match d.late[place]? with
      | none => d
      | some (id, request) => { d.handle answers id request with late := d.late.eraseIdx place }
  | .health up => { d with bridge := d.bridge.step (.health up) }
  | .shutdown => { d with bridge := d.bridge.step .shutdown }

def run (text : BridgeText) (events : List DeskEvent) : Desk := events.foldl (step text) start

section Equations

variable {text : BridgeText} {d : Desk} {cfg : Config} {env : Env}

theorem step_work_idle (h : sends cfg env d.jobs = none) (delivery : Delivery)
    (answers : TerminalAnswers) : d.step text (.work cfg env delivery answers) =
      { d with jobs := (processNextJob cfg env d.jobs).2 } := by
  simp only [step, h]

theorem step_work {job : LiveJob} (h : sends cfg env d.jobs = some job) (delivery : Delivery)
    (answers : TerminalAnswers) : d.step text (.work cfg env delivery answers) =
      { (d.exchange text delivery answers job).2 with
        jobs := (processNextJob cfg
          { env with http := (d.exchange text delivery answers job).1 } d.jobs).2 } := by
  simp only [step, h]

theorem step_late_none {place : Nat} (h : d.late[place]? = none) (answers : TerminalAnswers) :
    d.step text (.late place answers) = d := by
  simp only [step, h]

theorem step_late {place : Nat} {id : JobId} {request : OrderRequest}
    (h : d.late[place]? = some (id, request)) (answers : TerminalAnswers) :
    d.step text (.late place answers) =
      { d.handle answers id request with late := d.late.eraseIdx place } := by
  simp only [step, h]

end Equations

end Desk

/-! ### What one run of the worker does -/

theorem executeOrder_eq_ok {job : LiveJob} {http : HttpOutcome} {result : Json}
    (h : executeOrder job http = .ok result) :
    ∃ body v, http = .response 200 body (.ok v) ∧ parseResponse v = .ok result := by
  obtain ⟨_, -, hsent⟩ := bind_eq_ok.mp h
  cases http with
  | badRequest cause => cases hsent
  | transport cause => cases hsent
  | unreadable cause => cases hsent
  | response status body parsed =>
      simp only at hsent
      split at hsent
      · cases hsent
      · next hstatus =>
        obtain rfl := not_not.mp hstatus
        cases parsed with
        | error cause => cases hsent
        | ok v => exact ⟨body, v, rfl, hsent⟩

theorem executeOrder_ne_ok {job : LiveJob} {http : HttpOutcome}
    (h : ∀ body v, http ≠ .response 200 body (.ok v)) (result : Json) :
    executeOrder job http ≠ .ok result := by
  intro hok
  obtain ⟨body, v, hhttp, -⟩ := executeOrder_eq_ok hok
  exact h body v hhttp

private theorem claimNextJob_table (fault : Option ClaimFault) (pick : JobId) (now : Nat)
    (jobs : JobTable) :
    (claimNextJob fault pick now jobs).2 = jobs ∨ ∃ row, selectNext jobs pick = some row ∧
      (claimNextJob fault pick now jobs).2 = markClaimed jobs row.id now := by
  unfold claimNextJob
  split
  · exact .inl rfl
  · exact .inl rfl
  · split
    · exact .inl rfl
    · next row hrow =>
      split
      · exact .inl rfl
      · simp only
        split
        · exact .inr ⟨row, hrow, rfl⟩
        · exact .inl rfl
      · exact .inr ⟨row, hrow, rfl⟩

/-- The body writes a success only of what `executeOrder` has returned. -/
private theorem processBody_writes (cfg : Config) (env : Env) (job : LiveJob) (jobs : JobTable) :
    (processBody cfg env job jobs).2 = jobs ∨
      env.panicAt ≠ some .validate ∧ validateJob cfg env.data env.failures job = .ok () ∧
        ∃ result, executeOrder job env.http = .ok result ∧
          (processBody cfg env job jobs).2 = markFinished jobs job.id env.now .success result := by
  unfold processBody
  split
  · exact .inl rfl
  next hpanic =>
  split
  · exact .inl rfl
  next hvalid =>
  split
  · exact .inl rfl
  split
  · exact .inl rfl
  next result hresult =>
  split
  · exact .inl rfl
  cases hwrite : env.successWrite with
  | done =>
      refine .inr ⟨hpanic, hvalid, result, hresult, ?_⟩
      simp only [updateJobStatus]
      split <;> rfl
  | failed cause applied =>
      cases applied with
      | true => exact .inr ⟨hpanic, hvalid, result, hresult, rfl⟩
      | false => exact .inl rfl

/-- What a run leaves of the row it has claimed. -/
structure Worked (cfg : Config) (env : Env) (jobs jobs' : JobTable) (row row' : LiveJob) :
    Prop where
  selected : selectNext jobs env.pick = some row
  others : ∀ id ≠ row.id, jobs'.find? id = jobs.find? id
  found : jobs'.find? row.id = some row'
  payload : row'.payload = row.payload
  taken : row'.status.taken = true
  success : row'.status = .success → ∃ result, row'.result = some result ∧
    sends cfg env jobs = some (row.claimedCopy env.now) ∧
    executeOrder (row.claimedCopy env.now) env.http = .ok result

theorem selected_find? {jobs : JobTable} {pick : JobId} {row : LiveJob}
    (h : selectNext jobs pick = some row) : jobs.find? row.id = some row :=
  Table.find?_eq_some.mpr ⟨(selectNext_mem h).1, rfl⟩

theorem worked_of_claim (cfg : Config) (env : Env) {jobs : JobTable} {row : LiveJob}
    (h : selectNext jobs env.pick = some row) :
    Worked cfg env jobs (markClaimed jobs row.id env.now) row (row.claim env.now) where
  selected := h
  others _ hid := find?_markClaimed_of_ne hid env.now
  found := find?_markClaimed (selected_find? h) env.now
  payload := rfl
  taken := rfl
  success hstatus := nomatch hstatus

theorem Worked.fail {cfg : Config} {env : Env} {jobs jobs' : JobTable} {row row' : LiveJob}
    (h : Worked cfg env jobs jobs' row row') (result : Json) :
    Worked cfg env jobs (markFinished jobs' row.id env.now .failed result) row
      (row'.finish env.now .failed result) where
  selected := h.selected
  others id hid := (find?_markFinished_of_ne hid _ _ _).trans (h.others id hid)
  found := find?_markFinished h.found _ _ _
  payload := h.payload
  taken := rfl
  success hstatus := nomatch hstatus

theorem Worked.succeed {cfg : Config} {env : Env} {jobs jobs' : JobTable} {row row' : LiveJob}
    (h : Worked cfg env jobs jobs' row row') {result : Json}
    (hsends : sends cfg env jobs = some (row.claimedCopy env.now))
    (hresult : executeOrder (row.claimedCopy env.now) env.http = .ok result) :
    Worked cfg env jobs (markFinished jobs' row.id env.now .success result) row
      (row'.finish env.now .success result) where
  selected := h.selected
  others id hid := (find?_markFinished_of_ne hid _ _ _).trans (h.others id hid)
  found := find?_markFinished h.found _ _ _
  payload := h.payload
  taken := rfl
  success _ := ⟨result, rfl, hsends, hresult⟩

private theorem sends_of_claimed {cfg : Config} {env : Env} {jobs claimed : JobTable} {job : LiveJob}
    (hclaim : claimNextJob env.claimFault env.pick env.now jobs = (.ok (some job), claimed)) :
    sends cfg env jobs = (if env.panicAt = some .claimedLog ∨ env.panicAt = some .validate then none
      else (validateJob cfg env.data env.failures job).toOption.map fun _ => job) := by
  unfold sends
  rw [hclaim]

/-- Once a job is claimed, the run ends with it and can have sent no other. -/
private theorem processClaimed_spec (cfg : Config) {env : Env} {jobs : JobTable} {row : LiveJob}
    (hclaim : claimNextJob env.claimFault env.pick env.now jobs =
      (.ok (some (row.claimedCopy env.now)), markClaimed jobs row.id env.now))
    (hselect : selectNext jobs env.pick = some row) :
    (∃ row', Worked cfg env jobs (processClaimed cfg env (row.claimedCopy env.now)
        (markClaimed jobs row.id env.now)).2 row row') ∧
      ∀ job, sends cfg env jobs = some job → job = row.claimedCopy env.now := by
  have hsends := @sends_of_claimed cfg env jobs _ _ hclaim
  have hworked := worked_of_claim cfg env hselect
  constructor
  · by_cases hcrash : env.panicAt = some .claimedLog
    · rw [processClaimed, if_pos hcrash]
      exact ⟨_, hworked⟩
    have hbody : ∃ row', Worked cfg env jobs (processBody cfg env (row.claimedCopy env.now)
        (markClaimed jobs row.id env.now)).2 row row' := by
      rcases processBody_writes cfg env (row.claimedCopy env.now) (markClaimed jobs row.id env.now)
        with h | ⟨hpanic, hvalid, result, hresult, h⟩
      · rw [h]
        exact ⟨_, hworked⟩
      · rw [h]
        refine ⟨_, hworked.succeed ?_ hresult⟩
        rw [hsends, if_neg (not_or.mpr ⟨hcrash, hpanic⟩), hvalid]
        rfl
    obtain ⟨row', hrow'⟩ := hbody
    rcases processClaimed_jobs cfg env (row.claimedCopy env.now) (markClaimed jobs row.id env.now)
      with h | h | ⟨result, h⟩
    · rw [h]
      exact ⟨_, hworked⟩
    · rw [h]
      exact ⟨_, hrow'⟩
    · rw [h]
      exact ⟨_, hrow'.fail result⟩
  · intro job hjob
    rw [hsends] at hjob
    split at hjob
    · cases hjob
    · obtain ⟨_, -, rfl⟩ := Option.map_eq_some_iff.mp hjob
      rfl

/-- A run leaves the table as it was, or it claims the oldest job and ends with it. The job it
sends, if any, is the one it has claimed. -/
theorem processNextJob_spec (cfg : Config) (env : Env) (jobs : JobTable) :
    ((processNextJob cfg env jobs).2 = jobs ∧ sends cfg env jobs = none) ∨
      ∃ row row', Worked cfg env jobs (processNextJob cfg env jobs).2 row row' ∧
        ∀ job, sends cfg env jobs = some job → job = row.claimedCopy env.now := by
  have htable := claimNextJob_table env.claimFault env.pick env.now jobs
  cases hclaim : claimNextJob env.claimFault env.pick env.now jobs with
  | mk outcome claimed =>
      rw [hclaim] at htable
      -- Without a job the run ends with the claim.
      have hidle : sends cfg env jobs = none → (processNextJob cfg env jobs).2 = claimed →
          ((processNextJob cfg env jobs).2 = jobs ∧ sends cfg env jobs = none) ∨
            ∃ row row', Worked cfg env jobs (processNextJob cfg env jobs).2 row row' ∧
              ∀ job, sends cfg env jobs = some job → job = row.claimedCopy env.now := by
        intro hnone hrun
        rw [hrun, hnone]
        rcases htable with hsame | ⟨row, hselect, hmark⟩
        · exact .inl ⟨hsame, rfl⟩
        · obtain rfl : claimed = markClaimed jobs row.id env.now := hmark
          exact .inr ⟨row, _, worked_of_claim cfg env hselect, by simp⟩
      match outcome with
      | .error err => exact hidle (by rw [sends, hclaim]) (by rw [processNextJob, hclaim])
      | .ok none => exact hidle (by rw [sends, hclaim]) (by rw [processNextJob, hclaim])
      | .ok (some job) =>
          obtain ⟨row, hselect, rfl, rfl⟩ := claimNextJob_eq_some hclaim
          obtain ⟨⟨row', hworked⟩, honly⟩ := processClaimed_spec cfg hclaim hselect
          have hrun : (processNextJob cfg env jobs).2 = (processClaimed cfg env
              (row.claimedCopy env.now) (markClaimed jobs row.id env.now)).2 := by
            rw [processNextJob, hclaim]
          rw [hrun]
          exact .inr ⟨row, row', hworked, honly⟩

/-- A job that is sent, answered and stored without a fault is a success with the answer. -/
theorem processNextJob_of_answer {cfg : Config} {env : Env} {jobs : JobTable} {job : LiveJob}
    {result : Json} (hsends : sends cfg env jobs = some job) (hpanic : env.panicAt = none)
    (hwrite : env.successWrite = .done) (hresult : executeOrder job env.http = .ok result) :
    ∃ row, selectNext jobs env.pick = some row ∧ job = row.claimedCopy env.now ∧
      (processNextJob cfg env jobs).2 =
        markFinished (markClaimed jobs row.id env.now) row.id env.now .success result := by
  cases hclaim : claimNextJob env.claimFault env.pick env.now jobs with
  | mk outcome claimed =>
      unfold sends at hsends
      rw [hclaim] at hsends
      match outcome with
      | .error err => cases hsends
      | .ok none => cases hsends
      | .ok (some found) =>
          obtain ⟨row, hselect, rfl, rfl⟩ := claimNextJob_eq_some hclaim
          simp only [hpanic, reduceCtorEq, or_self, if_false] at hsends
          obtain ⟨⟨⟩, hvalid, rfl⟩ := Option.map_eq_some_iff.mp hsends
          rw [toOption_eq_some] at hvalid
          refine ⟨row, hselect, rfl, ?_⟩
          rw [processNextJob, hclaim]
          simp only [processClaimed, processBody, hpanic, hvalid, hresult, hwrite, updateJobStatus,
            reduceCtorEq, or_self, if_false, BodyExit.processErr]
          rfl

end SphereFx.Live
