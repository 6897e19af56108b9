import SphereFx.Api.Accounts
import SphereFx.Api.BacktestRun
import SphereFx.Api.Channels
import SphereFx.Api.Licenses
import SphereFx.Api.RouteConflict

/-!
# The database behind the routers

All tables that belong to users, with the requests of one user to the signals, accounts, channels,
live, backtest and license routers and to the backtest socket. A request of the first five runs the
licence dependency before its handler, and the dependency may store a licence. Deleting a channel sets
`channel_id` of every signal that refers to it to NULL, whoever owns the signal; the other foreign
keys refuse a delete.
-/

namespace SphereFx.Api

open SphereFx.Live

abbrev RunTable := Table BacktestRun BacktestRun.id

structure User where
  id : Nat
  isActive : Bool

structure Database where
  users : Table User User.id
  signals : SignalTable
  accounts : AccountTable
  channels : ChannelTable
  jobs : JobTable
  runs : RunTable
  licenses : LicenseTable

/-! ### Foreign keys -/

namespace Database

def hasChannel (db : Database) (id : Nat) : Bool := (db.channels.find? id).isSome

/-- `ON DELETE SET NULL` of `signals.channel_id`. -/
def clearChannel (signals : SignalTable) (id : Nat) : SignalTable :=
  signals.updateWhere (fun signal => signal.channelId = some id)
    (fun signal => { signal with channelId := none }) fun _ => rfl

/-- The foreign keys of the row a signal request is going to write or delete. -/
def acceptsSignal (db : Database) : SignalCall → Bool
  | .create data _ => data.channelId.all db.hasChannel
  | .update _ data _ => data.channelId.join.all db.hasChannel
  | .delete id => ! db.jobs.rows.any fun job => job.signalId = id
  | .webhook _ => true

def acceptsAccount (db : Database) : AccountCall → Bool
  | .delete id => ! db.jobs.rows.any fun job => job.accountId = id
  | _ => true

end Database

/-! ### Requests -/

/-- A request for a live job or a run, with the next identity value and whether the database accepts
its commit. -/
inductive UserCall where
  /-- A GET, whose handler writes nothing. -/
  | read
  | signal (request : SignalRequest)
  | account (request : AccountRequest)
  | channel (request : ChannelRequest)
  | route (request : LiveRouteRequest) (id : JobId)
  | cancelJob (id : JobId)
  | startBacktest (signalIds : List Int) (config : Json) (newId : Nat) (commits : Bool)
  | deleteBacktest (id : Nat) (commits : Bool)

/-- The time of a request, the process that serves it, and the next identity value of `licenses`. -/
structure RequestEnv where
  now : Nat
  process : Nat
  licenseId : Nat

/-- A commit of `execute_backtest`. -/
inductive TaskWrite where
  | started
  | progressed (progress : Int)
  | finished (signalIds : List Int) (logs : List String) (time : Nat)
  | broken (cause : String)

def TaskWrite.apply : TaskWrite → BacktestRun → BacktestRun
  | .started => BacktestRun.started
  | .progressed progress => BacktestRun.progressed progress
  | .finished signalIds logs time => BacktestRun.finished signalIds logs time
  | .broken cause => BacktestRun.broken cause

inductive UserEvent where
  | request (env : RequestEnv) (call : UserCall)
  | activate (env : RequestEnv) (key : String)
  | licenseStatus
  | deactivate (commits : Bool)
  /-- A background task that a request of the user has started commits something, or ends. -/
  | taskCommit (runId : Nat) (write : TaskWrite)
  | taskEnd (runId : Nat)
  /-- A backtest socket of the user opens, asks for a cancellation, or closes. -/
  | connect (socket runId : Nat)
  | cancelRun (socket : Nat)
  | leave (socket : Nat)

/-- The database, the runs whose background task goes on, and the run of each socket that is open. -/
structure Service where
  db : Database
  tasks : List Nat
  sockets : Nat → Option Nat

/-! ### Handlers of the live and backtest routers -/

def jobNotFound (id : JobId) : ApiError :=
  .notFound ("Job " ++ toString id ++ " not found or not owned")

def cancelJobEndpoint (userId : Nat) (id : JobId) (now : Nat) (jobs : JobTable) :
    Except ApiError Unit × JobTable :=
  match jobs.find? id with
  | none => (.error (jobNotFound id), jobs)
  | some job =>
      if job.userId ≠ userId then (.error (jobNotFound id), jobs)
      else
        match cancelJob id now jobs with
        | (true, jobs) => (.ok (), jobs)
        | (false, jobs) =>
            (.error (.conflict "Job cannot be cancelled (already claimed or completed)"), jobs)

/-- `start_backtest` without the background task: the run it stores. -/
def startBacktest (signals : SignalTable) (userId : Nat) (signalIds : List Int) (config : Json)
    (newId : Nat) (commits : Bool) (runs : RunTable) : Except ApiError BacktestRun × RunTable :=
  let found := signals.rows.filter fun row => (row.id : Int) ∈ signalIds ∧ row.createdBy = userId
  let run : BacktestRun := ⟨newId, userId, .pending, config, none, none⟩
  if found.length ≠ signalIds.length then
    (.error (.notFound "One or more signals not found or not owned by user"), runs)
  else
    match if commits then runs.insert? run else none with
    | none => (.error (.unhandled "commit failed"), runs)
    | some runs => (.ok run, runs)

def ownRun (runs : RunTable) (userId id : Nat) : Option BacktestRun :=
  (runs.find? id).filter fun run => run.userId = userId

def runNotFound (id : Nat) : ApiError := .notFound ("Backtest run " ++ toString id ++ " not found")

def deleteBacktest (userId id : Nat) (commits : Bool) (runs : RunTable) :
    Except ApiError Unit × RunTable :=
  match ownRun runs userId id with
  | none => (.error (runNotFound id), runs)
  | some _ =>
      if commits then (.ok (), runs.delete id) else (.error (.unhandled "commit failed"), runs)

/-- The dependency `require_feature`. -/
def requireFeature (feature : String) (license : License) : Except LicenseFailure Unit :=
  let disabled : LicenseFailure :=
    .license ("Feature '" ++ feature ++ "' is not enabled in your license")
  match license.features with
  | .obj fields =>
      if ((Json.lookup fields feature).getD (.bool false)).truthy then .ok () else .error disabled
  | features =>
      if features.truthy then .error (.other (.unhandled "object has no attribute 'get'"))
      else .error disabled

/-! ### The requests on the whole database -/

namespace Database

variable (format : Json → String) (encrypt : String → Nat → String)

def stepSignals (db : Database) (request : SignalRequest) : Database :=
  let request := { request with commits := request.commits && db.acceptsSignal request.call }
  { db with signals := SignalTable.step format db.signals request }

def stepAccounts (db : Database) (request : AccountRequest) : Database :=
  let request := { request with commits := request.commits && db.acceptsAccount request.call }
  let outcome := handleAccount encrypt request (Session.start db.accounts)
  { db with accounts := Session.teardown request.teardownCommits outcome }

/-- A channel request with the foreign key action of its commit. -/
def stepChannels (db : Database) (request : ChannelRequest) : Database :=
  let outcome := handleChannel request (Session.start db.channels)
  { db with
    channels := Session.teardown request.teardownCommits outcome
    signals := match request.call, outcome.1 with
      | .delete id, .ok _ => clearChannel db.signals id
      | _, _ => db.signals }

end Database

namespace Service

def withJobs (s : Service) (jobs : JobTable) : Service := { s with db := { s.db with jobs := jobs } }

def withRuns (s : Service) (runs : RunTable) : Service := { s with db := { s.db with runs := runs } }

def withLicenses (s : Service) (licenses : LicenseTable) : Service :=
  { s with db := { s.db with licenses := licenses } }

section Steps

variable (format : Json → String) (encrypt : String → Nat → String)
variable (payloadOf : String → Option LicensePayload) (hash : Nat → String → Int)
variable (setting : Option String)

/-- The handler of a request of `user` that the licence dependency has let through. -/
def serve (user : Nat) (env : RequestEnv) (license : License) (s : Service) : UserCall → Service
  | .read => s
  | .signal request => { s with db := s.db.stepSignals format { request with userId := user } }
  | .account request => { s with db := s.db.stepAccounts encrypt { request with userId := user } }
  | .channel request => { s with db := s.db.stepChannels { request with userId := user } }
  | .route request id =>
      match requireFeature "live_trading" license with
      | .error _ => s
      | .ok () =>
          s.withJobs (routeSignalToLive s.db.signals s.db.accounts user request id env.now s.db.jobs).2
  | .cancelJob id => s.withJobs (cancelJobEndpoint user id env.now s.db.jobs).2
  | .startBacktest signalIds config newId commits =>
      match startBacktest s.db.signals user signalIds config newId commits s.db.runs with
      | (.error _, _) => s
      | (.ok run, runs) => { s.withRuns runs with tasks := run.id :: s.tasks }
  | .deleteBacktest id commits => s.withRuns (deleteBacktest user id commits s.db.runs).2

def step (user : Nat) (s : Service) : UserEvent → Service
  | .request env call =>
      match requireValidLicense payloadOf (hash env.process) setting env.now user env.licenseId
        s.db.licenses with
      | (.error _, licenses) => s.withLicenses licenses
      | (.ok license, licenses) =>
          (s.withLicenses licenses).serve format encrypt user env license call
  | .activate env key =>
      s.withLicenses (activateLicense payloadOf (hash env.process) env.now user key env.licenseId
        s.db.licenses).2
  | .licenseStatus => s
  | .deactivate commits =>
      if commits then s.withLicenses (deactivateLicense user s.db.licenses).2 else s
  | .taskCommit runId write =>
      if runId ∈ s.tasks then
        s.withRuns (s.db.runs.update runId write.apply fun _ => by cases write <;> rfl)
      else s
  | .taskEnd runId => { s with tasks := s.tasks.filter (· ≠ runId) }
  | .connect socket runId =>
      match ownRun s.db.runs user runId with
      | none => s
      | some run =>
          if run.status = .done then s
          else { s with sockets := Function.update s.sockets socket (some runId) }
  | .cancelRun socket =>
      match s.sockets socket with
      | none => s
      | some runId =>
          if (s.db.runs.find? runId).any fun run => run.status = .running then
            s.withRuns (s.db.runs.update runId BacktestRun.cancelled fun _ => rfl)
          else s
  | .leave socket => { s with sockets := Function.update s.sockets socket none }

end Steps

end Service

end SphereFx.Api
