import Mathlib.Data.List.Sort
import SphereFx.Api.BacktestRead
import SphereFx.Api.Isolation

/-!
# What a GET request of one user shows

The nine GET handlers behind the signals, accounts, channels, live, backtest and license routers, with
the response the client gets. Exceptions that no handler of `exceptions/handlers.py` names become one
response without a text.

The rows of a query without an order come as they are stored. How the database compares with `LIKE`
and reads a text as a date, and Python's `str.upper`, are parameters.
-/

namespace SphereFx.Api

open SphereFx.Live

structure SignalFilter where
  symbol : Option String
  action : Option String
  status : Option String
  startDate : Option String
  endDate : Option String

inductive ReadCall where
  | listSignals (filter : SignalFilter) (page pageSize : Int)
  | getSignal (id : Int)
  | listAccounts
  | getAccount (id : Int)
  | listChannels
  | getChannel (id : Int)
  | jobStatus (id : JobId)
  | backtestStatus (id : Int)
  | licenseStatus

/-! ### Responses -/

structure SignalList where
  items : List Signal
  total : Nat
  page : Int
  pageSize : Int

structure AccountRead where
  id : Nat
  login : String
  server : String
  isActive : Bool
  balanceCache : Option ℚ
  equityCache : Option ℚ
  lastSync : Option Nat

inductive Body where
  | signals (list : SignalList)
  | signal (signal : Signal)
  | accounts (accounts : List AccountRead)
  | account (account : AccountRead)
  | channels (channels : List TelegramChannel)
  | channel (channel : TelegramChannel)
  | job (status : LiveJobStatus)
  | backtest (status : BacktestStatus)
  | license (status : LicenseStatus)

inductive Response where
  | ok (body : Body)
  | unauthorized (message : String)
  | forbidden (message : String)
  /-- FastAPI refuses the query parameters. -/
  | badQuery
  | failed (err : ApiError)
  | internal

/-- The response to an exception of a handler. -/
def Response.ofError : ApiError → Response
  | .unhandled _ => .internal
  | err => .failed err

def Response.ofFailure : LicenseFailure → Response
  | .license message => .forbidden message
  | .other err => .ofError err

def Response.ofResult {α : Type} (body : α → Body) : Except ApiError α → Response
  | .error err => .ofError err
  | .ok value => .ok (body value)

/-! ### Response schemas -/

/-- `SignalRead`, which has every column. `take_profit` is a list of dictionaries. -/
def signalRead (signal : Signal) : Except ApiError Signal :=
  match orNull (fun value => value.slice?.bind (List.mapM Json.object?)) signal.takeProfit with
  | none => .error (.unhandled "ValidationError")
  | some _ => .ok signal

/-- `AccountRead`. The login is the stored one. -/
def accountRead (account : MT5Account) : AccountRead where
  id := account.id
  login := account.login
  server := account.server
  isActive := account.isActive
  balanceCache := account.balanceCache
  equityCache := account.equityCache
  lastSync := account.lastSync

/-- `LiveJobStatus`, whose result is a dictionary. -/
def liveJobStatus (job : LiveJob) : Except ApiError LiveJobStatus :=
  match orNull Json.object? (job.result.getD .null) with
  | none => .error (.unhandled "ValidationError")
  | some result =>
      .ok { LiveJobStatus.ofNew job with result := result.map .obj, finishedAt := job.finishedAt }

/-! ### The handlers -/

/-- The comparisons of the database and of Python. -/
structure Comparisons where
  like : String → String → Bool
  date : String → Option Nat
  upper : String → String

/-- A filter that is set and not empty. -/
def given (filter : Option String) : Option String := filter.filter (· ≠ "")

/-- A date bound, which the database refuses if it cannot read it. -/
def dateBound (compare : Comparisons) (bound : Option String) : Except ApiError (Option Nat) :=
  match given bound with
  | none => .ok none
  | some text =>
      match compare.date text with
      | none => .error (.unhandled "DataError")
      | some time => .ok (some time)

def SignalFilter.passes (filter : SignalFilter) (compare : Comparisons) (since till : Option Nat)
    (signal : Signal) : Bool :=
  ((given filter.symbol).all fun symbol => compare.like signal.symbol ("%" ++ symbol ++ "%")) &&
    ((given filter.action).all fun action => signal.action = compare.upper action) &&
    ((given filter.status).all fun status => signal.status = compare.upper status) &&
    (since.all fun time => time ≤ signal.createdAt) && till.all fun time => signal.createdAt ≤ time

def listSignals (compare : Comparisons) (user : Nat) (filter : SignalFilter) (page pageSize : Int)
    (signals : SignalTable) : Except ApiError SignalList := do
  let since ← dateBound compare filter.startDate
  let till ← dateBound compare filter.endDate
  let rows := signals.rows.filter fun row =>
    row.createdBy = user ∧ filter.passes compare since till row
  let newest := rows.insertionSort fun row other => other.createdAt ≤ row.createdAt
  let shown := (newest.drop ((page - 1) * pageSize).toNat).take pageSize.toNat
  return ⟨← shown.mapM signalRead, rows.length, page, pageSize⟩

def getSignal (user : Nat) (id : Int) (signals : SignalTable) : Except ApiError Signal := do
  let signal ← orNotFound (← scalarOneOrNone (signals.query Signal.createdBy user id))
    ("Signal " ++ toString id ++ " not found")
  signalRead signal

def listAccountReads (user : Nat) (accounts : AccountTable) : List AccountRead :=
  (accounts.rows.filter fun row => row.userId = user).map accountRead

def getAccountRead (user : Nat) (id : Int) (accounts : AccountTable) :
    Except ApiError AccountRead := do
  let account ← orNotFound (← scalarOneOrNone (accounts.query MT5Account.userId user id))
    ("Account " ++ toString id ++ " not found")
  return accountRead account

def listChannels (user : Nat) (channels : ChannelTable) : List TelegramChannel :=
  channels.rows.filter fun row => row.addedBy = user

def getChannel (user : Nat) (id : Int) (channels : ChannelTable) :
    Except ApiError TelegramChannel := do
  orNotFound (← scalarOneOrNone (channels.query TelegramChannel.addedBy user id))
    ("Channel " ++ toString id ++ " not found")

/-- The endpoint looks the job up by its id alone and compares the owner afterwards. -/
def getJobStatusEndpoint (user : Nat) (id : JobId) (jobs : JobTable) :
    Except ApiError LiveJobStatus :=
  match jobs.find? id with
  | none => .error (jobNotFound id)
  | some job => if job.userId ≠ user then .error (jobNotFound id) else liveJobStatus job

/-! ### The whole request -/

/-- The query of `JWTBearer`. -/
def authenticate (user : Nat) (users : Table User User.id) : Option User :=
  users.rows.find? fun row => row.id = user ∧ row.isActive = true

/-- The next identity value of `licenses`. -/
def nextLicenseId (licenses : LicenseTable) : Nat :=
  (licenses.rows.map License.id).foldr max 0 + 1

section Requests

variable (texts : LaxTexts) (compare : Comparisons)
variable (payloadOf : String → Option LicensePayload) (hash : String → Int)
variable (setting : Option String) (user now : Nat)

/-- The handlers behind the licence dependency. -/
def serveRead (db : Database) : ReadCall → Response
  | .listSignals filter page pageSize =>
      if page < 1 ∨ pageSize < 1 ∨ 100 < pageSize then .badQuery
      else .ofResult .signals (listSignals compare user filter page pageSize db.signals)
  | .getSignal id => .ofResult .signal (getSignal user id db.signals)
  | .listAccounts => .ok (.accounts (listAccountReads user db.accounts))
  | .getAccount id => .ofResult .account (getAccountRead user id db.accounts)
  | .listChannels => .ok (.channels (listChannels user db.channels))
  | .getChannel id => .ofResult .channel (getChannel user id db.channels)
  | .jobStatus id => .ofResult .job (getJobStatusEndpoint user id db.jobs)
  | .backtestStatus id => .ofResult .backtest (texts.getBacktestStatus user id db.runs)
  | .licenseStatus => .ofResult .license (getLicenseStatus now user db.licenses)

/-- What the licence dependency answers. The status of the licence is shown without it. -/
def readDependency (db : Database) : ReadCall → Except LicenseFailure Unit
  | .licenseStatus => .ok ()
  | _ =>
      (requireValidLicense payloadOf hash setting now user (nextLicenseId db.licenses)
        db.licenses).1.map fun _ => ()

def respond (db : Database) (call : ReadCall) : Response :=
  match authenticate user db.users with
  | none => .unauthorized "User not found or inactive"
  | some _ =>
      match readDependency payloadOf hash setting user now db call with
      | .error failure => .ofFailure failure
      | .ok () => serveRead texts compare user now db call

end Requests

/-! ### Only rows of the user are shown -/

section Agreement

variable {texts : LaxTexts} {compare : Comparisons}
variable {payloadOf : String → Option LicensePayload} {hash : String → Int}
variable {setting : Option String} {user now : Nat} {db db' : Database}

/-- Two databases with the same rows of `user`. -/
structure Agrees (user : Nat) (db db' : Database) : Prop extends Unchanged user db db' where
  users : db'.users.ownedBy User.id user = db.users.ownedBy User.id user

theorem filter_owner_and {α : Type} {key : α → Nat} (owner : α → Nat) (t : Table α key) (user : Nat)
    (p : α → Bool) : (t.rows.filter fun row => owner row = user ∧ p row) =
      (t.ownedBy owner user).filter p := by
  rw [Table.ownedBy, List.filter_filter]
  refine List.filter_congr fun row _ => ?_
  cases p row <;> simp

theorem query_congr {α : Type} {key owner : α → Nat} {t t' : Table α key}
    (h : t'.ownedBy owner user = t.ownedBy owner user) (k : Int) :
    t'.query owner user k = t.query owner user k := by
  rw [Table.query_eq_filter, Table.query_eq_filter, h]

theorem authenticate_congr (h : Agrees user db db') :
    authenticate user db'.users = authenticate user db.users := by
  have hfind : ∀ users : Table User User.id, authenticate user users =
      (users.ownedBy User.id user).find? fun row => row.isActive := by
    intro users
    rw [authenticate, Table.ownedBy, List.find?_filter]
    congr 1
    funext row
    cases row.isActive <;> simp
  rw [hfind, hfind, h.users]

theorem validRows_congr (h : Agrees user db db') :
    validRows db'.licenses user now = validRows db.licenses user now := by
  have hfilter : ∀ licenses : LicenseTable, validRows licenses user now =
      (licenses.ownedBy License.userId user).filter fun row => row.isActive && now < row.expiresAt := by
    intro licenses
    rw [← filter_owner_and]
    simp only [validRows, Bool.and_eq_true, decide_eq_true_eq]
  rw [hfilter, hfilter, h.licenses]

private theorem activeRows_congr (h : Agrees user db db') :
    activeRows db'.licenses user = activeRows db.licenses user := by
  simp only [activeRows]
  rw [filter_owner_and License.userId db'.licenses user fun row => row.isActive,
    filter_owner_and License.userId db.licenses user fun row => row.isActive, h.licenses]

private theorem listSignals_congr (h : Agrees user db db') (filter : SignalFilter) (page pageSize : Int) :
    listSignals compare user filter page pageSize db'.signals =
      listSignals compare user filter page pageSize db.signals := by
  simp only [listSignals, filter_owner_and, h.signals]

private theorem getJobStatusEndpoint_eq (user : Nat) (id : JobId) (jobs : JobTable) :
    getJobStatusEndpoint user id jobs =
      match (jobs.ownedBy LiveJob.userId user).find? fun row => row.id = id with
      | none => .error (jobNotFound id)
      | some job => liveJobStatus job := by
  rw [← Table.find?_filter_owner, getJobStatusEndpoint]
  cases jobs.find? id with
  | none => rfl
  | some job =>
      by_cases howner : job.userId = user
      · simp [howner, Option.filter]
      · simp [howner, Option.filter]

private theorem serveRead_congr (h : Agrees user db db') (call : ReadCall) :
    serveRead texts compare user now db' call = serveRead texts compare user now db call := by
  cases call with
  | listSignals filter page pageSize => simp only [serveRead, listSignals_congr h]
  | getSignal id => simp only [serveRead, getSignal, query_congr h.signals]
  | listAccounts =>
      have haccounts : listAccountReads user db'.accounts = listAccountReads user db.accounts :=
        congrArg (List.map accountRead) h.accounts
      simp only [serveRead, haccounts]
  | getAccount id => simp only [serveRead, getAccountRead, query_congr h.accounts]
  | listChannels =>
      have hchannels : listChannels user db'.channels = listChannels user db.channels := h.channels
      simp only [serveRead, hchannels]
  | getChannel id => simp only [serveRead, getChannel, query_congr h.channels]
  | jobStatus id => simp only [serveRead, getJobStatusEndpoint_eq, h.jobs]
  | backtestStatus id => simp only [serveRead, LaxTexts.getBacktestStatus, query_congr h.runs]
  | licenseStatus => simp only [serveRead, getLicenseStatus, activeRows_congr h]

/-! ### The licence dependency -/

/-- A key hash is stored, whoever owns the licence. -/
def HashTaken (licenses : LicenseTable) (draft : LicenseDraft) : Prop :=
  draft.licenseKeyHash ∈ licenses.rows.map License.licenseKeyHash

instance (licenses : LicenseTable) (draft : LicenseDraft) : Decidable (HashTaken licenses draft) :=
  inferInstanceAs (Decidable (_ ∈ _))

private theorem nextLicenseId_fresh (licenses : LicenseTable) :
    nextLicenseId licenses ∉ licenses.rows.map License.id := by
  intro hmem
  have hle : ∀ ids : List Nat, ∀ id ∈ ids, id ≤ ids.foldr max 0 := by
    intro ids
    induction ids with
    | nil => exact List.forall_mem_nil _
    | cons first rest ih =>
        intro id hid
        rcases List.mem_cons.mp hid with rfl | hrest
        · exact le_max_left _ _
        · exact (ih id hrest).trans (le_max_right _ _)
  exact absurd (hle _ _ hmem) (by simp [nextLicenseId])

private theorem insertLicense_next (licenses : LicenseTable) (draft : LicenseDraft) :
    (insertLicense (draft.row (nextLicenseId licenses)) licenses).map (fun _ => ()) =
      if HashTaken licenses draft then .error (.unhandled "IntegrityError") else .ok () := by
  unfold insertLicense Table.insert?
  rw [dif_neg (show (draft.row (nextLicenseId licenses)).id ∉ _ from nextLicenseId_fresh licenses)]
  by_cases htaken : HashTaken licenses draft
  · rw [if_pos htaken, if_pos (show (draft.row _).licenseKeyHash ∈ _ from htaken)]
    rfl
  · rw [if_neg htaken, if_neg (show (draft.row _).licenseKeyHash ∉ _ from htaken)]
    rfl

/-- What the dependency answers: apart from the valid rows of the user it asks whether the hash of the
configured key is stored. -/
theorem requireValidLicense_next (licenses : LicenseTable) :
    ((requireValidLicense payloadOf hash setting now user (nextLicenseId licenses) licenses).1.map
      fun _ => ()) =
      match scalarOneOrNone (validRows licenses user now) with
      | .error err => .error (.other err)
      | .ok (some _) => .ok ()
      | .ok none =>
          match settingDraft payloadOf hash setting now user with
          | none => .error notLicensed
          | some draft =>
              if HashTaken licenses draft then .error (.other (.unhandled "IntegrityError"))
              else .ok () := by
  unfold requireValidLicense
  cases scalarOneOrNone (validRows licenses user now) with
  | error err => rfl
  | ok found =>
      cases found with
      | some row => rfl
      | none =>
          cases settingDraft payloadOf hash setting now user with
          | none => rfl
          | some draft =>
              have hinsert := insertLicense_next licenses draft
              simp only
              cases hresult : insertLicense (draft.row (nextLicenseId licenses)) licenses with
              | error err =>
                  rw [hresult] at hinsert
                  split at hinsert
                  · cases hinsert
                    rw [if_pos ‹_›]
                    rfl
                  · cases hinsert
              | ok inserted =>
                  rw [hresult] at hinsert
                  split at hinsert
                  · cases hinsert
                  · rw [if_neg ‹_›]
                    rfl

private theorem getSignal_neg (user : Nat) (signals : SignalTable) :
    getSignal user (-1) signals = .error (.notFound ("Signal " ++ toString (-1 : Int) ++ " not found")) := by
  have hquery : signals.query Signal.createdBy user (-1) = [] := by
    rw [Table.query, List.filter_eq_nil_iff]
    intro row _ hkey
    have hneg : (row.id : Int) = -1 := (of_decide_eq_true hkey).1
    omega
  rw [getSignal, hquery]
  rfl

variable (payloadOf hash setting user now) in
/-- The licence dependency is going to store the configured key for the user, and finds its hash in
both databases or in neither. -/
def SameClash (db db' : Database) : Prop :=
  ∀ row draft, authenticate user db.users = some row → validRows db.licenses user now = [] →
    settingDraft payloadOf hash setting now user = some draft →
    (HashTaken db'.licenses draft ↔ HashTaken db.licenses draft)

private theorem respond_of_sameClash (h : Agrees user db db')
    (hclash : SameClash payloadOf hash setting user now db db') (call : ReadCall) :
    respond texts compare payloadOf hash setting user now db' call =
      respond texts compare payloadOf hash setting user now db call := by
  unfold respond
  rw [authenticate_congr h]
  cases hauth : authenticate user db.users with
  | none => rfl
  | some row =>
      have hdependency : readDependency payloadOf hash setting user now db' call =
          readDependency payloadOf hash setting user now db call := by
        cases call with
        | licenseStatus => rfl
        | _ =>
            simp only [readDependency, requireValidLicense_next, validRows_congr h]
            split
            · rfl
            · rfl
            · rename_i hnone
              split
              · rfl
              · rename_i draft hdraft
                simp only [hclash row draft hauth (scalarOneOrNone_eq_none.mp hnone) hdraft]
      simp only [hdependency, serveRead_congr h]

/-- A user gets the same response to every GET from two databases that agree on the rows of the user,
exactly when the licence dependency meets the hash of the configured key in both or in neither. -/
theorem respond_iff (h : Agrees user db db') :
    (∀ call, respond texts compare payloadOf hash setting user now db' call =
      respond texts compare payloadOf hash setting user now db call) ↔
      SameClash payloadOf hash setting user now db db' := by
  refine ⟨fun hsame row draft hauth hvalid hdraft => ?_, respond_of_sameClash h⟩
  have hrespond : ∀ other : Database, authenticate user other.users = some row →
      validRows other.licenses user now = [] →
      respond texts compare payloadOf hash setting user now other (.getSignal (-1)) =
        if HashTaken other.licenses draft then .internal
        else .failed (.notFound ("Signal " ++ toString (-1 : Int) ++ " not found")) := by
    intro other hauth' hvalid'
    simp only [respond, hauth', readDependency, requireValidLicense_next,
      scalarOneOrNone_eq_none.mpr hvalid', hdraft]
    by_cases htaken : HashTaken other.licenses draft
    · simp only [if_pos htaken]
      rfl
    · simp only [if_neg htaken, serveRead, getSignal_neg]
      rfl
  have hdb := hrespond db hauth hvalid
  have hdb' := hrespond db' ((authenticate_congr h).trans hauth) ((validRows_congr h).trans hvalid)
  rw [hsame, hdb] at hdb'
  by_cases htaken : HashTaken db.licenses draft <;> by_cases htaken' : HashTaken db'.licenses draft
  · exact iff_of_true htaken' htaken
  · rw [if_pos htaken, if_neg htaken'] at hdb'
    cases hdb'
  · rw [if_neg htaken, if_pos htaken'] at hdb'
    cases hdb'
  · exact iff_of_false htaken' htaken

end Agreement

/-! ### A configured key whose hash another user's licence has -/

/-- The licences next to user 2, who has no row but the account. -/
def besides (licenses : LicenseTable) : Database where
  users := ⟨[⟨2, true⟩], by decide⟩
  signals := Table.empty
  accounts := Table.empty
  channels := Table.empty
  jobs := Table.empty
  runs := Table.empty
  licenses := licenses

def takenHash : LicenseTable := ⟨[⟨1, 5, 1, .null, 20, true⟩], by decide⟩

def configuredPayload (key : String) : Option LicensePayload :=
  if key = "sig.payload" then some ⟨.int 2, .null, 20⟩ else none

def plainTexts : LaxTexts := ⟨fun _ => none, fun _ => none, fun _ => none⟩

def plainCompare : Comparisons := ⟨fun column pattern => column = pattern, fun _ => none, id⟩

private theorem agrees_takenHash : Agrees 2 (besides Table.empty) (besides takenHash) :=
  ⟨⟨rfl, rfl, rfl, rfl, rfl, rfl⟩, rfl⟩

def otherHash : LicenseTable := ⟨[⟨1, 6, 1, .null, 20, true⟩], by decide⟩

/-- A licence of user 1 with another hash makes no difference to user 2. -/
theorem respond_iff_otherHash :
    respond plainTexts plainCompare configuredPayload (fun _ => 5) (some "sig.payload") 2 10
        (besides otherHash) =
      respond plainTexts plainCompare configuredPayload (fun _ => 5) (some "sig.payload") 2 10
        (besides Table.empty) := by
  have hagrees : Agrees 2 (besides Table.empty) (besides otherHash) :=
    ⟨⟨rfl, rfl, rfl, rfl, rfl, rfl⟩, rfl⟩
  refine funext ((respond_iff hagrees).mpr fun row draft _ _ hdraft => ?_)
  obtain rfl := Option.some.inj hdraft
  decide

/-- The response of user 2 depends on a licence of user 1. -/
theorem taken_hash_shown :
    ¬ ∀ db db' : Database, Agrees 2 db db' → ∀ call,
      respond plainTexts plainCompare configuredPayload (fun _ => 5) (some "sig.payload") 2 10 db'
          call =
        respond plainTexts plainCompare configuredPayload (fun _ => 5) (some "sig.payload") 2 10 db
          call := by
  intro h
  have hsame := h _ _ agrees_takenHash .listAccounts
  have hfree : respond plainTexts plainCompare configuredPayload (fun _ => 5) (some "sig.payload") 2
      10 (besides Table.empty) .listAccounts = .ok (.accounts []) := rfl
  have htaken : respond plainTexts plainCompare configuredPayload (fun _ => 5) (some "sig.payload") 2
      10 (besides takenHash) .listAccounts = .internal := rfl
  rw [hfree, htaken] at hsame
  cases hsame

end SphereFx.Api
