import SphereFx.Base.Run
import SphereFx.Api.Credentials
import SphereFx.Api.Database
import SphereFx.Api.SignalStore

/-!
# What one user can change of another's data

Every handler looks its row up among the rows of the user and writes rows of the user. One delete goes
further: a signal may refer to any channel, and deleting the channel clears the reference.
-/

namespace SphereFx.Api

open SphereFx.Live
open Session (Within)

/-! ### Sessions of the signal and account handlers -/

private theorem createdBy_newSignal {id now createdBy : Nat} {fields : SignalFields} {signal : Signal}
    (h : newSignal id now createdBy fields = .ok signal) : signal.createdBy = createdBy := by
  simp only [newSignal, bind_eq_ok, pure_eq_ok] at h
  obtain ⟨_, -, _, -, _, -, _, -, _, -, rfl⟩ := h
  rfl

private theorem within_storeSignal {t : SignalTable} {request : SignalRequest} {createdBy : Nat}
    {fields : SignalFields} {signal : Signal} {session session' : SignalSession}
    (hwithin : Within Signal.createdBy createdBy t session)
    (h : storeSignal request createdBy fields session = .ok (signal, session')) :
    Within Signal.createdBy createdBy t session' := by
  rw [storeSignal, bind_eq_ok] at h
  obtain ⟨row, hrow, h⟩ := h
  split at h
  · cases h
  · rename_i committed hcommit
    cases h
    exact (hwithin.add (createdBy_newSignal hrow)).commit hcommit

private theorem createdBy_assignSignal {data : SignalUpdate} {signal signal' : Signal}
    (h : assignSignal data signal = .ok signal') :
    signal'.id = signal.id ∧ signal'.createdBy = signal.createdBy := by
  rw [(assignSignal_eq_ok.mp h).2]
  exact ⟨rfl, rfl⟩

theorem createdBy_ownSignal {t : SignalTable} {userId id : Nat} {signal : Signal}
    (h : ownSignal t userId id = some signal) : signal.createdBy = userId :=
  of_decide_eq_true (Option.filter_eq_some_iff.mp h).2

private theorem within_handleSignal (format : Json → String) (t : SignalTable) (request : SignalRequest) :
    Within Signal.createdBy request.userId t (handleSignal format request (Session.start t)).2 := by
  have hstart : Within Signal.createdBy request.userId t (Session.start t) := Session.within_start t
  unfold handleSignal
  cases request.call with
  | create data valid =>
      simp only [createSignal]
      split
      · exact hstart
      · rename_i signal session houtcome
        obtain ⟨_, -, hstore⟩ := bind_eq_ok.mp houtcome
        exact within_storeSignal hstart hstore
  | update id data valid =>
      simp only [updateSignal]
      split
      · exact hstart
      · rename_i signal hown
        obtain ⟨hmem, hid⟩ := ownSignal_eq_some hown
        have howner := createdBy_ownSignal hown
        have hload := hstart.load hmem howner
        split
        · exact hload
        · rename_i signal' hassign
          obtain ⟨hid', howner'⟩ := createdBy_assignSignal hassign
          split
          · exact hstart
          · rename_i session hcommit
            exact (hload.modify fun _ _ _ => ⟨hid'.trans hid, howner'.trans howner⟩).commit hcommit
  | delete id =>
      simp only [deleteSignal]
      split
      · exact hstart
      · rename_i signal hown
        obtain ⟨hmem, rfl⟩ := ownSignal_eq_some hown
        have howner := createdBy_ownSignal hown
        split
        · exact hstart
        · rename_i session hcommit
          exact ((hstart.load hmem howner).remove hmem howner).commit hcommit
  | webhook hook =>
      obtain ⟨result, hresult⟩ := webhook_table t request hook
      show Within Signal.createdBy request.userId t (telegramWebhook request hook (Session.start t)).2
      rw [hresult]
      exact hstart

theorem userId_ownAccount {t : AccountTable} {userId id : Nat} {account : MT5Account}
    (h : ownAccount t userId id = some account) : account.userId = userId :=
  of_decide_eq_true (Option.filter_eq_some_iff.mp h).2

variable {encrypt : String → Nat → String}

private theorem userId_assignAccount {data : AccountUpdate} {salt : Nat → Nat}
    {account account' : MT5Account} (h : assignAccount encrypt data salt account = .ok account') :
    account'.id = account.id ∧ account'.userId = account.userId := by
  rw [(assignAccount_eq_ok.mp h).2]
  exact ⟨rfl, rfl⟩

private theorem within_foldl_load {t : AccountTable} {user : Nat} {session : AccountSession}
    {accounts : List MT5Account} (h : Within MT5Account.userId user t session)
    (haccounts : ∀ account ∈ accounts, account ∈ session.table.rows ∧ account.userId = user) :
    Within MT5Account.userId user t (accounts.foldl Session.load session) := by
  induction accounts generalizing session with
  | nil => exact h
  | cons account rest ih =>
      obtain ⟨hmem, howner⟩ := haccounts account List.mem_cons_self
      exact ih (h.load hmem howner) fun other hother =>
        haccounts other (List.mem_cons_of_mem _ hother)

theorem within_mask {t : AccountTable} {user id : Nat} {session : AccountSession}
    (h : Within MT5Account.userId user t session) (login : MT5Account → String) :
    Within MT5Account.userId user t
      (session.modify id fun account => masked (login account) account) :=
  h.modify fun object hobject hkey => ⟨hkey, (h.objects object hobject).1⟩

private theorem within_handleAccount (encrypt : String → Nat → String) (t : AccountTable)
    (request : AccountRequest) : Within MT5Account.userId request.userId t
      (handleAccount encrypt request (Session.start t)).2 := by
  have hstart : Within MT5Account.userId request.userId t (Session.start t) := Session.within_start t
  unfold handleAccount
  cases request.call with
  | list =>
      refine within_foldl_load hstart fun account haccount => ?_
      simpa only [List.mem_filter, decide_eq_true_eq] using haccount
  | get id =>
      simp only [getAccount]
      split
      · exact hstart
      · rename_i account hown
        exact hstart.load (ownAccount_eq_some hown).1 (userId_ownAccount hown)
  | create data =>
      simp only [createAccount]
      split
      · exact hstart
      · split
        · exact hstart
        · rename_i session hcommit
          exact within_mask ((hstart.add rfl).commit hcommit) fun _ => data.login
  | update id data =>
      simp only [updateAccount]
      split
      · exact hstart
      · rename_i account hown
        obtain ⟨hmem, hid⟩ := ownAccount_eq_some hown
        have howner := userId_ownAccount hown
        have hload := hstart.load hmem howner
        split
        · exact hload
        · rename_i account' hassign
          obtain ⟨hid', howner'⟩ := userId_assignAccount hassign
          split
          · exact hstart
          · rename_i session hcommit
            have hcommitted := (hload.modify (k := id) fun _ _ _ =>
              ⟨hid'.trans hid, howner'.trans howner⟩).commit hcommit
            exact within_mask hcommitted MT5Account.login
  | delete id =>
      simp only [deleteAccount]
      split
      · exact hstart
      · rename_i account hown
        obtain ⟨hmem, rfl⟩ := ownAccount_eq_some hown
        have howner := userId_ownAccount hown
        split
        · exact hstart
        · rename_i session hcommit
          exact ((hstart.load hmem howner).remove hmem howner).commit hcommit

/-! ### The other tables -/

private theorem ownedBy_routeSignalToLive (signals : SignalTable) (accounts : AccountTable) (user : Nat)
    (request : LiveRouteRequest) (id : JobId) (now : Nat) (jobs : JobTable) {other : Nat}
    (hother : other ≠ user) :
    (routeSignalToLive signals accounts user request id now jobs).2.ownedBy LiveJob.userId other =
      jobs.ownedBy LiveJob.userId other := by
  simp only [routeSignalToLive]
  split
  · rfl
  · rename_i status jobs' houtcome
    obtain ⟨signal, -, houtcome⟩ := bind_eq_ok.mp houtcome
    obtain ⟨account, -, houtcome⟩ := bind_eq_ok.mp houtcome
    simp only [enqueueRouted, bind_eq_ok, pure_eq_ok, flushJob_eq_ok] at houtcome
    obtain ⟨_, -, _, -, table, ⟨-, henqueue⟩, heq⟩ := houtcome
    obtain ⟨-, rfl⟩ := Prod.mk.inj heq
    obtain ⟨-, -, hrows⟩ := enqueueJob_eq_some.mp henqueue
    exact Table.ownedBy_cons hrows hother.symm

private theorem ownedBy_cancelJobEndpoint (user : Nat) (id : JobId) (now : Nat) (jobs : JobTable)
    {other : Nat} (hother : other ≠ user) :
    (cancelJobEndpoint user id now jobs).2.ownedBy LiveJob.userId other =
      jobs.ownedBy LiveJob.userId other := by
  unfold cancelJobEndpoint
  split
  · rfl
  · rename_i job hfind
    split
    · rfl
    · rename_i howner
      obtain ⟨hmem, hid⟩ := Table.find?_eq_some.mp hfind
      have hupdate : (cancelJob id now jobs).2.ownedBy LiveJob.userId other =
          jobs.ownedBy LiveJob.userId other := by
        unfold cancelJob guardedUpdate
        split
        · refine Table.ownedBy_update (f := LiveJob.cancel now) (fun _ => rfl) fun row hrow hkey => ?_
          have hsame : row = job :=
            List.inj_on_of_nodup_map jobs.unique hrow hmem (hkey.trans hid.symm)
          have hrowOwner : row.userId ≠ other := by
            rw [hsame, not_not.mp howner]
            exact hother.symm
          exact ⟨hrowOwner, hrowOwner⟩
        · rfl
      split
      · rename_i heq
        rw [heq] at hupdate
        exact hupdate
      · rename_i heq
        rw [heq] at hupdate
        exact hupdate

theorem userId_ownRun {runs : RunTable} {user id : Nat} {run : BacktestRun}
    (h : ownRun runs user id = some run) : run ∈ runs.rows ∧ run.id = id ∧ run.userId = user := by
  obtain ⟨hfind, howner⟩ := Option.filter_eq_some_iff.mp h
  obtain ⟨hmem, hid⟩ := Table.find?_eq_some.mp hfind
  exact ⟨hmem, hid, of_decide_eq_true howner⟩

theorem startBacktest_eq_ok {signals : SignalTable} {user : Nat} {signalIds : List Int}
    {config : Json} {newId : Nat} {commits : Bool} {runs runs' : RunTable} {run : BacktestRun}
    (h : startBacktest signals user signalIds config newId commits runs = (.ok run, runs')) :
    run.userId = user ∧ run.id ∉ runs.rows.map BacktestRun.id ∧ runs'.rows = run :: runs.rows := by
  simp only [startBacktest] at h
  split at h
  · cases (Prod.mk.inj h).1
  · split at h
    · cases (Prod.mk.inj h).1
    · rename_i table hinsert
      obtain ⟨hok, rfl⟩ := Prod.mk.inj h
      obtain rfl := Except.ok.inj hok
      cases commits with
      | false => cases hinsert
      | true =>
          rw [if_pos rfl] at hinsert
          obtain ⟨hfresh, hrows⟩ := Table.insert?_eq_some hinsert
          exact ⟨rfl, hfresh, hrows⟩

private theorem ownedBy_deleteBacktest (user id : Nat) (commits : Bool) (runs : RunTable) {other : Nat}
    (hother : other ≠ user) :
    (deleteBacktest user id commits runs).2.ownedBy BacktestRun.userId other =
      runs.ownedBy BacktestRun.userId other := by
  unfold deleteBacktest
  split
  · rfl
  · rename_i run hown
    obtain ⟨hmem, hid, howner⟩ := userId_ownRun hown
    split
    · refine Table.ownedBy_delete fun row hrow hkey => ?_
      rw [List.inj_on_of_nodup_map runs.unique hrow hmem (hkey.trans hid.symm), howner]
      exact hother.symm
    · rfl

/-! ### Licences -/

theorem ownedBy_insertLicense {draft : LicenseDraft} {id other : Nat} {table table' : LicenseTable}
    (h : insertLicense (draft.row id) table = .ok table') (hother : other ≠ draft.userId) :
    table'.ownedBy License.userId other = table.ownedBy License.userId other :=
  Table.ownedBy_cons (insertLicense_eq_ok.mp h).2.2 hother.symm

variable {payloadOf : String → Option LicensePayload} {hash : String → Int}

private theorem ownedBy_requireValidLicense (setting : Option String) (now user id : Nat)
    (table : LicenseTable) {other : Nat} (hother : other ≠ user) :
    (requireValidLicense payloadOf hash setting now user id table).2.ownedBy License.userId other =
      table.ownedBy License.userId other := by
  unfold requireValidLicense
  split
  · rfl
  · rfl
  · split
    · rfl
    · rename_i draft hdraft
      split
      · rfl
      · rename_i table' hinsert
        exact ownedBy_insertLicense hinsert (userId_settingDraft hdraft ▸ hother)

private theorem ownedBy_activateLicense (now user : Nat) (key : String) (id : Nat) (table : LicenseTable)
    {other : Nat} (hother : other ≠ user) :
    (activateLicense payloadOf hash now user key id table).2.ownedBy License.userId other =
      table.ownedBy License.userId other := by
  simp only [activateLicense]
  split
  · rfl
  · rename_i row table' hstored
    obtain ⟨draft, hdraft, hstored⟩ := bind_eq_ok.mp hstored
    obtain ⟨_, -, hstored⟩ := bind_eq_ok.mp hstored
    obtain ⟨inserted, hinsert, heq⟩ := bind_eq_ok.mp hstored
    cases heq
    exact ownedBy_insertLicense hinsert (userId_activateDraft hdraft ▸ hother)

private theorem userId_loadActive {user : Nat} {table : LicenseTable} {row : License}
    (h : loadActive user table = .ok row) : row ∈ table.rows ∧ row.userId = user := by
  unfold loadActive at h
  obtain ⟨found, hquery, hfound⟩ := bind_eq_ok.mp h
  cases found with
  | none => cases hfound
  | some first =>
      cases hfound
      have hmem : row ∈ activeRows table user := by
        rw [scalarOneOrNone_eq_some.mp hquery]
        exact List.mem_singleton_self _
      obtain ⟨hrow, howner, -⟩ := mem_activeRows.mp hmem
      exact ⟨hrow, howner⟩

private theorem ownedBy_deactivateLicense (user : Nat) (table : LicenseTable) {other : Nat}
    (hother : other ≠ user) :
    (deactivateLicense user table).2.ownedBy License.userId other =
      table.ownedBy License.userId other := by
  unfold deactivateLicense
  split
  · rfl
  · rename_i row hload
    obtain ⟨hmem, howner⟩ := userId_loadActive hload
    refine Table.ownedBy_update (f := fun found : License => { found with isActive := false }) (fun _ => rfl)
      fun found hfound hkey => ?_
    have hsame : found.userId ≠ other := by
      rw [List.inj_on_of_nodup_map table.unique hfound hmem hkey, howner]
      exact hother.symm
    exact ⟨hsame, hsame⟩

/-! ### One step -/

/-- The rows of `victim` in one database are those in another. -/
structure Unchanged (victim : Nat) (db db' : Database) : Prop where
  signals : db'.signals.ownedBy Signal.createdBy victim = db.signals.ownedBy Signal.createdBy victim
  accounts : db'.accounts.ownedBy MT5Account.userId victim =
    db.accounts.ownedBy MT5Account.userId victim
  channels : db'.channels.ownedBy TelegramChannel.addedBy victim =
    db.channels.ownedBy TelegramChannel.addedBy victim
  jobs : db'.jobs.ownedBy LiveJob.userId victim = db.jobs.ownedBy LiveJob.userId victim
  runs : db'.runs.ownedBy BacktestRun.userId victim = db.runs.ownedBy BacktestRun.userId victim
  licenses : db'.licenses.ownedBy License.userId victim = db.licenses.ownedBy License.userId victim

theorem Unchanged.refl (victim : Nat) (db : Database) : Unchanged victim db db :=
  ⟨rfl, rfl, rfl, rfl, rfl, rfl⟩

theorem Unchanged.trans {victim : Nat} {db db' db'' : Database} (h : Unchanged victim db db')
    (h' : Unchanged victim db' db'') : Unchanged victim db db'' where
  signals := h'.signals.trans h.signals
  accounts := h'.accounts.trans h.accounts
  channels := h'.channels.trans h.channels
  jobs := h'.jobs.trans h.jobs
  runs := h'.runs.trans h.runs
  licenses := h'.licenses.trans h.licenses

/-- Every row of `victim` in one database is still there, unchanged, in another. -/
structure Kept (victim : Nat) (db db' : Database) : Prop where
  signals : ∀ row ∈ db.signals.ownedBy Signal.createdBy victim, row ∈ db'.signals.rows
  accounts : ∀ row ∈ db.accounts.ownedBy MT5Account.userId victim, row ∈ db'.accounts.rows
  channels : ∀ row ∈ db.channels.ownedBy TelegramChannel.addedBy victim, row ∈ db'.channels.rows
  jobs : ∀ row ∈ db.jobs.ownedBy LiveJob.userId victim, row ∈ db'.jobs.rows
  runs : ∀ row ∈ db.runs.ownedBy BacktestRun.userId victim, row ∈ db'.runs.rows
  licenses : ∀ row ∈ db.licenses.ownedBy License.userId victim, row ∈ db'.licenses.rows

theorem Unchanged.kept {victim : Nat} {db db' : Database} (h : Unchanged victim db db') :
    Kept victim db db' where
  signals _ hrow := (Table.mem_ownedBy.mp (h.signals.symm ▸ hrow)).1
  accounts _ hrow := (Table.mem_ownedBy.mp (h.accounts.symm ▸ hrow)).1
  channels _ hrow := (Table.mem_ownedBy.mp (h.channels.symm ▸ hrow)).1
  jobs _ hrow := (Table.mem_ownedBy.mp (h.jobs.symm ▸ hrow)).1
  runs _ hrow := (Table.mem_ownedBy.mp (h.runs.symm ▸ hrow)).1
  licenses _ hrow := (Table.mem_ownedBy.mp (h.licenses.symm ▸ hrow)).1

namespace Service

/-- The runs that a background task or a socket of `user` works on are runs of `user`, as far as they
are still stored. -/
structure Holds (user : Nat) (s : Service) : Prop where
  tasks : ∀ runId ∈ s.tasks, ∀ run ∈ s.db.runs.rows, run.id = runId → run.userId = user
  sockets : ∀ socket runId, s.sockets socket = some runId →
    ∀ run ∈ s.db.runs.rows, run.id = runId → run.userId = user

/-- A change of the runs that moves no run to another user and adds runs of `user` only. -/
theorem Holds.withRuns {user : Nat} {s : Service} {runs : RunTable} (h : Holds user s)
    (hruns : ∀ run ∈ runs.rows, run.userId = user ∨
      ∃ old ∈ s.db.runs.rows, old.id = run.id ∧ old.userId = run.userId) :
    Holds user (s.withRuns runs) where
  tasks := by
    intro runId htask run hrun hid
    rcases hruns run hrun with howner | ⟨old, hold, hid', howner⟩
    · exact howner
    · exact howner ▸ h.tasks runId htask old hold (hid'.trans hid)
  sockets := by
    intro socket runId hsocket run hrun hid
    rcases hruns run hrun with howner | ⟨old, hold, hid', howner⟩
    · exact howner
    · exact howner ▸ h.sockets socket runId hsocket old hold (hid'.trans hid)

end Service

/-! ### Channels and the signals that refer to them -/

private theorem ownedBy_clearChannel {signals : SignalTable} {id victim : Nat}
    (h : ∀ signal ∈ signals.ownedBy Signal.createdBy victim, signal.channelId ≠ some id) :
    (Database.clearChannel signals id).ownedBy Signal.createdBy victim =
      signals.ownedBy Signal.createdBy victim := by
  refine filter_map_frame fun signal hsignal => ?_
  by_cases hchannel : signal.channelId = some id
  · have howner : signal.createdBy ≠ victim :=
      fun howner => h signal (Table.mem_ownedBy.mpr ⟨hsignal, howner⟩) hchannel
    rw [if_pos (decide_eq_true hchannel)]
    exact Or.inr ⟨decide_eq_false howner, decide_eq_false howner⟩
  · exact Or.inl (if_neg (by simpa using hchannel))

private theorem channelId_clearChannel {signals : SignalTable} {id : Nat} {signal : Signal}
    (h : signal ∈ (Database.clearChannel signals id).rows) : signal.channelId ≠ some id := by
  obtain ⟨old, -, rfl⟩ := List.mem_map.mp h
  by_cases hchannel : old.channelId = some id
  · rw [if_pos (decide_eq_true hchannel)]
    exact fun h => by cases h
  · rw [if_neg (by simpa using hchannel)]
    exact hchannel

theorem deleteChannel_eq_ok {t : ChannelTable} {request : ChannelRequest} {id : Nat} :
    (∃ rows, (deleteChannel request id (Session.start t)).1 = .ok rows) ↔
      (ownChannel t request.userId id).isSome = true ∧ request.commits = true := by
  have htable : (Session.start t).table = t := rfl
  unfold deleteChannel
  rw [htable]
  cases ownChannel t request.userId id with
  | none => simp
  | some channel =>
      cases request.commits with
      | false => simp [Session.commit]
      | true => simp [Session.commit, Session.flush, Session.remove, Session.load, Session.start]

/-- The one way a request of `user` reaches a row of `victim`: it deletes a channel of `user` that a
signal of `victim` refers to. -/
def DeletesReferenced (user victim : Nat) (db : Database) : UserCall → Prop
  | .channel request =>
      ∃ id, request.call = .delete id ∧ request.commits = true ∧
        (ownChannel db.channels user id).isSome = true ∧
        ∃ signal ∈ db.signals.ownedBy Signal.createdBy victim, signal.channelId = some id
  | _ => False

private theorem signals_stepChannels {db : Database} {user victim : Nat} {request : ChannelRequest}
    (h : ¬ DeletesReferenced user victim db (.channel request)) :
    (db.stepChannels { request with userId := user }).signals.ownedBy Signal.createdBy victim =
      db.signals.ownedBy Signal.createdBy victim := by
  unfold Database.stepChannels
  simp only
  split
  · rename_i id _ hcall hok
    refine ownedBy_clearChannel fun signal hsignal hchannel => h ?_
    have hdelete : ∃ rows, (deleteChannel { request with userId := user } id
        (Session.start db.channels)).1 = .ok rows := by
      simp only [handleChannel, hcall] at hok
      exact ⟨_, hok⟩
    obtain ⟨hown, hcommits⟩ := deleteChannel_eq_ok.mp hdelete
    exact ⟨id, hcall, hcommits, hown, signal, hsignal, hchannel⟩
  · rfl

private theorem stepChannels_lost {db : Database} {user victim : Nat} {request : ChannelRequest}
    (h : DeletesReferenced user victim db (.channel request)) :
    ∃ signal ∈ db.signals.ownedBy Signal.createdBy victim,
      signal ∉ (db.stepChannels { request with userId := user }).signals.rows := by
  obtain ⟨id, hcall, hcommits, hown, signal, hsignal, hchannel⟩ := h
  refine ⟨signal, hsignal, fun hkept => ?_⟩
  have hcleared : (db.stepChannels { request with userId := user }).signals =
      Database.clearChannel db.signals id := by
    have hrequest : (ownChannel db.channels ({ request with userId := user } :
        ChannelRequest).userId id).isSome = true := hown
    obtain ⟨rows, hok⟩ := deleteChannel_eq_ok.mpr ⟨hrequest, hcommits⟩
    simp only [hcall] at hok
    simp only [Database.stepChannels, handleChannel, hcall, hok]
  rw [hcleared] at hkept
  exact channelId_clearChannel hkept hchannel

/-! ### What a request leaves alone -/

theorem TaskWrite.apply_frame (write : TaskWrite) (run : BacktestRun) :
    (write.apply run).id = run.id ∧ (write.apply run).userId = run.userId := by
  cases write <;> exact ⟨rfl, rfl⟩

section Steps

variable {format : Json → String} {encrypt : String → Nat → String}
variable {payloadOf : String → Option LicensePayload} {hash : Nat → String → Int}
variable {setting : Option String} {user victim : Nat}

namespace Service

private theorem unchanged_serve (s : Service) (env : RequestEnv) (license : License) {call : UserCall}
    (hvictim : victim ≠ user) (h : ¬ DeletesReferenced user victim s.db call) :
    Unchanged victim s.db (s.serve format encrypt user env license call).db := by
  have hself := Unchanged.refl victim s.db
  cases call with
  | read => exact hself
  | signal request =>
      exact { hself with
        signals := (within_handleSignal format s.db.signals _).teardown _ _ hvictim }
  | account request =>
      exact { hself with
        accounts := (within_handleAccount encrypt s.db.accounts _).teardown _ _ hvictim }
  | channel request =>
      exact { hself with
        signals := signals_stepChannels h
        channels := ownedBy_stepChannels s.db.channels _ hvictim }
  | route request id =>
      simp only [serve]
      split
      · exact hself
      · exact { hself with jobs := ownedBy_routeSignalToLive _ _ user request id _ _ hvictim }
  | cancelJob id => exact { hself with jobs := ownedBy_cancelJobEndpoint user id _ _ hvictim }
  | startBacktest signalIds config newId commits =>
      simp only [serve]
      split
      · exact hself
      · rename_i run runs hstart
        obtain ⟨howner, -, hrows⟩ := startBacktest_eq_ok hstart
        exact { hself with runs := Table.ownedBy_cons hrows (howner ▸ hvictim.symm) }
  | deleteBacktest id commits => exact { hself with runs := ownedBy_deleteBacktest user id _ _ hvictim }

/-- The runs are touched by the two backtest requests only, and these keep to runs of the user. -/
theorem Holds.serve {s : Service} (hs : s.Holds user) (env : RequestEnv) (license : License)
    (call : UserCall) : (s.serve format encrypt user env license call).Holds user := by
  cases call with
  | read => exact hs
  | signal request => exact ⟨hs.tasks, hs.sockets⟩
  | account request => exact ⟨hs.tasks, hs.sockets⟩
  | channel request => exact ⟨hs.tasks, hs.sockets⟩
  | route request id =>
      simp only [Service.serve]
      split
      · exact hs
      · exact ⟨hs.tasks, hs.sockets⟩
  | cancelJob id => exact ⟨hs.tasks, hs.sockets⟩
  | startBacktest signalIds config newId commits =>
      simp only [Service.serve]
      split
      · exact hs
      · rename_i run runs hstart
        obtain ⟨howner, -, hrows⟩ := startBacktest_eq_ok hstart
        have hruns : (s.withRuns runs).Holds user := by
          refine hs.withRuns fun other hother => ?_
          rcases List.mem_cons.mp (hrows ▸ hother) with rfl | hold
          · exact Or.inl howner
          · exact Or.inr ⟨other, hold, rfl, rfl⟩
        refine ⟨fun runId htask other hother hid => ?_, hruns.sockets⟩
        rcases List.mem_cons.mp htask with rfl | hold
        · have hmem : run ∈ runs.rows := by
            rw [hrows]
            exact List.mem_cons_self
          rw [List.inj_on_of_nodup_map runs.unique hother hmem hid]
          exact howner
        · exact hruns.tasks runId hold other hother hid
  | deleteBacktest id commits =>
      refine hs.withRuns fun run hrun => Or.inr ⟨run, ?_, rfl, rfl⟩
      unfold deleteBacktest at hrun
      split at hrun
      · exact hrun
      · split at hrun
        · exact (Table.mem_delete.mp hrun).1
        · exact hrun

variable (payloadOf hash setting user victim) in
/-- The request gets past the licence dependency and deletes a channel of `user` that a signal of
`victim` refers to. -/
def ClearsReference (s : Service) : UserEvent → Prop
  | .request env call =>
      (∃ license, (requireValidLicense payloadOf (hash env.process) setting env.now user env.licenseId
        s.db.licenses).1 = .ok license) ∧ DeletesReferenced user victim s.db call
  | _ => False

theorem unchanged_updateRun {s : Service} {runId : Nat} {f : BacktestRun → BacktestRun}
    (hf : ∀ run, (f run).id = run.id ∧ (f run).userId = run.userId) (hvictim : victim ≠ user)
    (h : ∀ run ∈ s.db.runs.rows, run.id = runId → run.userId = user) :
    Unchanged victim s.db (s.withRuns (s.db.runs.update runId f fun run => (hf run).1)).db :=
  { Unchanged.refl victim s.db with
    runs := Table.ownedBy_update (fun run => (hf run).1) fun run hrun hid =>
      ⟨h run hrun hid ▸ hvictim.symm, (hf run).2 ▸ h run hrun hid ▸ hvictim.symm⟩ }

theorem Holds.updateRun {s : Service} (hs : s.Holds user) {runId : Nat}
    {f : BacktestRun → BacktestRun} (hf : ∀ run, (f run).id = run.id ∧ (f run).userId = run.userId) :
    (s.withRuns (s.db.runs.update runId f fun run => (hf run).1)).Holds user := by
  refine hs.withRuns fun run hrun => Or.inr ?_
  obtain ⟨old, hold, rfl⟩ := Table.mem_update.mp hrun
  refine ⟨old, hold, ?_⟩
  by_cases hid : old.id = runId
  · rw [if_pos hid]
    exact ⟨(hf old).1.symm, (hf old).2.symm⟩
  · rw [if_neg hid]
    exact ⟨rfl, rfl⟩

/-- A step that clears no reference leaves every row of the other user alone. -/
theorem unchanged_step {s : Service} (hs : s.Holds user) {event : UserEvent} (hvictim : victim ≠ user)
    (h : ¬ s.ClearsReference payloadOf hash setting user victim event) :
    Unchanged victim s.db (s.step format encrypt payloadOf hash setting user event).db := by
  have hself := Unchanged.refl victim s.db
  cases event with
  | request env call =>
      have hlicense : (requireValidLicense payloadOf (hash env.process) setting env.now user
          env.licenseId s.db.licenses).2.ownedBy License.userId victim =
            s.db.licenses.ownedBy License.userId victim :=
        ownedBy_requireValidLicense setting env.now user env.licenseId s.db.licenses hvictim
      simp only [step]
      split
      · rename_i heq
        rw [heq] at hlicense
        exact { hself with licenses := hlicense }
      · rename_i license licenses heq
        rw [heq] at hlicense
        have hdependency : Unchanged victim s.db (s.withLicenses licenses).db :=
          { hself with licenses := hlicense }
        have hrequest : ¬ DeletesReferenced user victim (s.withLicenses licenses).db call :=
          fun hdelete => h ⟨⟨license, congrArg Prod.fst heq⟩, hdelete⟩
        exact hdependency.trans (unchanged_serve _ env license hvictim hrequest)
  | activate env key =>
      exact { hself with licenses := ownedBy_activateLicense env.now user key env.licenseId _ hvictim }
  | licenseStatus => exact hself
  | deactivate commits =>
      simp only [step]
      split
      · exact { hself with licenses := ownedBy_deactivateLicense user _ hvictim }
      · exact hself
  | taskCommit runId write =>
      simp only [step]
      split
      · rename_i htask
        exact unchanged_updateRun write.apply_frame hvictim (hs.tasks runId htask)
      · exact hself
  | taskEnd runId => exact hself
  | connect socket runId =>
      simp only [step]
      split
      · exact hself
      · split <;> exact hself
  | cancelRun socket =>
      simp only [step]
      split
      · exact hself
      · rename_i runId hsocket
        split
        · exact unchanged_updateRun (f := BacktestRun.cancelled) (fun _ => ⟨rfl, rfl⟩) hvictim
            (hs.sockets socket runId hsocket)
        · exact hself
  | leave socket => exact hself

theorem Holds.step {s : Service} (hs : s.Holds user) (event : UserEvent) :
    (s.step format encrypt payloadOf hash setting user event).Holds user := by
  cases event with
  | request env call =>
      simp only [Service.step]
      split
      · exact ⟨hs.tasks, hs.sockets⟩
      · rename_i license licenses _
        have hdependency : (s.withLicenses licenses).Holds user := ⟨hs.tasks, hs.sockets⟩
        exact hdependency.serve env license call
  | activate env key => exact ⟨hs.tasks, hs.sockets⟩
  | licenseStatus => exact hs
  | deactivate commits =>
      simp only [Service.step]
      split
      · exact ⟨hs.tasks, hs.sockets⟩
      · exact hs
  | taskCommit runId write =>
      simp only [Service.step]
      split
      · exact hs.updateRun write.apply_frame
      · exact hs
  | taskEnd runId =>
      exact ⟨fun other hother => hs.tasks other (List.mem_filter.mp hother).1, hs.sockets⟩
  | connect socket runId =>
      simp only [Service.step]
      split
      · exact hs
      · rename_i run hown
        obtain ⟨hmem, hid, howner⟩ := userId_ownRun hown
        split
        · exact hs
        · refine ⟨hs.tasks, fun other otherId hother row hrow hrowId => ?_⟩
          by_cases hsame : other = socket
          · simp only [hsame, Function.update_self] at hother
            have hrun : row = run := List.inj_on_of_nodup_map s.db.runs.unique hrow hmem
              (hrowId.trans ((Option.some.inj hother).symm.trans hid.symm))
            rw [hrun, howner]
          · simp only [Function.update_of_ne hsame] at hother
            exact hs.sockets other otherId hother row hrow hrowId
  | cancelRun socket =>
      simp only [Service.step]
      split
      · exact hs
      · split
        · exact hs.updateRun (f := BacktestRun.cancelled) fun _ => ⟨rfl, rfl⟩
        · exact hs
  | leave socket =>
      refine ⟨hs.tasks, fun other otherId hother row hrow hrowId => ?_⟩
      have hsocket : Function.update s.sockets socket none other = some otherId := hother
      by_cases hsame : other = socket
      · rw [hsame, Function.update_self] at hsocket
        cases hsocket
      · rw [Function.update_of_ne hsame] at hsocket
        exact hs.sockets other otherId hsocket row hrow hrowId

/-- A step that clears a reference of the other user takes a row from them. -/
theorem signal_lost {s : Service} {event : UserEvent}
    (h : s.ClearsReference payloadOf hash setting user victim event) :
    ∃ signal ∈ s.db.signals.ownedBy Signal.createdBy victim,
      signal ∉ (s.step format encrypt payloadOf hash setting user event).db.signals.rows := by
  cases event with
  | request env call =>
      obtain ⟨⟨license, hlicense⟩, hdelete⟩ := h
      have hstep : s.step format encrypt payloadOf hash setting user (.request env call) =
          (s.withLicenses (requireValidLicense payloadOf (hash env.process) setting env.now user
            env.licenseId s.db.licenses).2).serve format encrypt user env license call := by
        simp only [step]
        split
        · rename_i heq
          rw [heq] at hlicense
          cases hlicense
        · rename_i heq
          rw [heq] at hlicense ⊢
          cases hlicense
          rfl
      rw [hstep]
      cases call with
      | channel request => exact stepChannels_lost hdelete
      | _ => exact hdelete.elim
  | _ => exact h.elim

/-- The database as the first request of a user finds it. -/
def start (db : Database) : Service := ⟨db, [], fun _ => none⟩

theorem holds_start (db : Database) : (start db).Holds user :=
  ⟨List.forall_mem_nil _, fun _ _ h => by cases h⟩

variable (victim) in
/-- Every signal of the user with a channel refers to a channel the user added. -/
def OwnChannels (db : Database) : Prop :=
  ∀ signal ∈ db.signals.ownedBy Signal.createdBy victim, ∀ id, signal.channelId = some id →
    ∃ channel ∈ db.channels.ownedBy TelegramChannel.addedBy victim, channel.id = id

private theorem not_deletesReferenced {db : Database} (hown : OwnChannels victim db) (hvictim : victim ≠ user)
    (call : UserCall) : ¬ DeletesReferenced user victim db call := by
  intro hdelete
  cases call with
  | channel request =>
      obtain ⟨id, -, -, howned, signal, hsignal, hchannel⟩ := hdelete
      obtain ⟨channel, hmem, hid⟩ := hown signal hsignal id hchannel
      obtain ⟨hrow, hadded⟩ := Table.mem_ownedBy.mp hmem
      obtain ⟨deleted, hdeleted⟩ := Option.isSome_iff_exists.mp howned
      obtain ⟨hrow', hid', hadded'⟩ := ownChannel_eq_some hdeleted
      have hsame : channel = deleted :=
        List.inj_on_of_nodup_map db.channels.unique hrow hrow' (hid.trans hid'.symm)
      exact hvictim (hadded.symm.trans (hsame ▸ hadded'))
  | _ => exact hdelete

/-- A user whose signals refer to their own channels loses nothing to another user, whatever the
other one does. -/
theorem unchanged_of_ownChannels {db : Database} (hown : OwnChannels victim db)
    (hvictim : victim ≠ user) (events : List UserEvent) :
    ∀ s ∈ visited (step format encrypt payloadOf hash setting user) (start db) events,
      Unchanged victim db s.db := by
  have hinv : ∀ s ∈ visited (step format encrypt payloadOf hash setting user) (start db) events,
      s.Holds user ∧ Unchanged victim db s.db := by
    refine visited_invariant ?_ ⟨holds_start db, Unchanged.refl victim db⟩
    intro s event hs
    -- The signals and channels of the user are those of the start, so they still fit together.
    have hown' : OwnChannels victim s.db := by
      unfold OwnChannels
      rw [hs.2.signals, hs.2.channels]
      exact hown
    refine ⟨hs.1.step event, hs.2.trans (unchanged_step hs.1 hvictim fun hclears => ?_)⟩
    cases event with
    | request env call => exact not_deletesReferenced hown' hvictim call hclears.2
    | _ => exact hclears
  exact fun s hs => (hinv s hs).2

/-- Another user's rows are kept in every state of a run, exactly as long as no request of the run
deletes a channel that a signal of the other user refers to. -/
theorem kept_iff (db : Database) (events : List UserEvent) (hvictim : victim ≠ user) :
    (∀ s ∈ visited (step format encrypt payloadOf hash setting user) (start db) events,
        Kept victim db s.db) ↔
      Along (step format encrypt payloadOf hash setting user)
        (fun s event => ¬ s.ClearsReference payloadOf hash setting user victim event) (start db)
        events := by
  refine visited_iff_along (fun s : Service => s.Holds user ∧ Unchanged victim db s.db)
    (fun s => Kept victim db s.db) (fun h => h.2.kept) ?_ ?_
    ⟨holds_start db, Unchanged.refl victim db⟩
  · intro s event hs hkeeps
    exact ⟨hs.1.step event, hs.2.trans (unchanged_step hs.1 hvictim hkeeps)⟩
  · intro s event hs hgood hclears
    obtain ⟨signal, hsignal, hlost⟩ := signal_lost hclears
    exact hlost (hgood.signals signal (hs.2.signals ▸ hsignal))

/-- User 2 has a licence and the channels 5 and 6, and a signal of user 1 refers to the first one. -/
def sharedChannel : Database where
  users := ⟨[⟨1, true⟩, ⟨2, true⟩], by decide⟩
  signals := ⟨[⟨7, none, "EURUSD", "BUY", "MARKET", none, none, .null, 0, "PENDING", some 5, 1, 0⟩],
    by decide⟩
  accounts := Table.empty
  channels := ⟨[⟨5, "-100", "gold", true, 2⟩, ⟨6, "-200", "silver", true, 2⟩], by decide⟩
  jobs := Table.empty
  runs := Table.empty
  licenses := ⟨[⟨1, 0, 2, .null, 10, true⟩], by decide⟩

def deleteShared : UserEvent :=
  .request ⟨0, 0, 2⟩ (.channel ⟨2, .delete 5, 6, true, true⟩)

def deleteUnshared : UserEvent :=
  .request ⟨0, 0, 2⟩ (.channel ⟨2, .delete 6, 6, true, true⟩)

/-- The other channel goes without a trace at user 1. -/
theorem kept_iff_sharedChannel :
    let states := visited (step (fun _ => "") (fun plain _ => plain) (fun _ => none) (fun _ _ => 0)
      none 2) (start sharedChannel) [deleteUnshared]
    states.map (fun s => s.db.channels.rows.length) = [2, 1] ∧
      ∀ s ∈ states, Kept 1 sharedChannel s.db := by
  refine ⟨rfl, (kept_iff sharedChannel [deleteUnshared] (by decide)).mpr ⟨?_, trivial⟩⟩
  rintro ⟨-, id, hcall, -, -, signal, hsignal, hchannel⟩
  obtain rfl : signal = _ := List.mem_singleton.mp hsignal
  cases hcall
  cases hchannel

theorem channel_delete_reaches_signal :
    ¬ ∀ s ∈ visited (step (fun _ => "") (fun plain _ => plain) (fun _ => none) (fun _ _ => 0) none 2)
        (start sharedChannel) [deleteShared], Kept 1 sharedChannel s.db := by
  intro h
  have hclears : (start sharedChannel).ClearsReference (fun _ => none) (fun _ _ => 0) none 2 1
      deleteShared :=
    ⟨⟨_, rfl⟩, 5, rfl, rfl, rfl, _, List.mem_singleton_self _, rfl⟩
  obtain ⟨signal, hsignal, hlost⟩ := @signal_lost (fun _ => "") (fun plain _ => plain) _ _ _ _ _ _ _
    hclears
  exact hlost ((h _ (List.mem_cons_of_mem _ (List.mem_singleton_self _))).signals signal hsignal)

end Service

end Steps

end SphereFx.Api
