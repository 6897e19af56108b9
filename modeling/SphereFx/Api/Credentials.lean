import SphereFx.Base.Check
import SphereFx.Api.Accounts

/-!
# Which requests lose a stored login

A request that stores an account and ends with an accepted commit leaves the mask in the login
column. The mask is too short for a token, so nothing decrypts it. Every other request keeps every
stored login readable, and the password column is never masked.
-/

namespace SphereFx.Api

section Credentials

variable (encrypt : String → Nat → String) (decrypt : String → Option String)

/-- Every stored login and password decrypts to the one last stored for the account. -/
def CredentialsSurvive (s : AccountStore) : Prop :=
  ∀ row ∈ s.table.rows, ∃ login password, s.submitted row.id = some (login, password) ∧
    decrypt row.login = some login ∧ decrypt row.password = some password

/-- The password half of it. -/
def PasswordsSurvive (s : AccountStore) : Prop :=
  ∀ row ∈ s.table.rows, ∃ login password, s.submitted row.id = some (login, password) ∧
    decrypt row.password = some password

def Creates (t : AccountTable) (request : AccountRequest) (data : AccountCreate) : Prop :=
  request.commits = true ∧ request.newId ∉ t.rows.map MT5Account.id ∧
    ∀ row ∈ t.rows, row.login = encrypt data.login (request.salt 0) → row.userId ≠ request.userId

def NoNulls (data : AccountUpdate) : Prop :=
  data.login ≠ some none ∧ data.password ≠ some none ∧ data.server ≠ some none ∧
    data.isActive ≠ some none

def Updates (t : AccountTable) (request : AccountRequest) (id : Nat) (data : AccountUpdate) : Prop :=
  request.commits = true ∧ (ownAccount t request.userId id).isSome = true ∧ NoNulls data

def Writes (s : AccountStore) (request : AccountRequest) : Prop :=
  match request.call with
  | .create data => Creates encrypt s.table request data
  | .update id data => Updates s.table request id data
  | _ => False

/-- One whose last commit is accepted too. -/
def StoresMask (s : AccountStore) (request : AccountRequest) : Prop :=
  request.teardownCommits = true ∧ Writes encrypt s request

end Credentials

/-! ### What the requests do to the table -/

open Table (Written)

theorem ownAccount_eq_some {t : AccountTable} {userId id : Nat} {account : MT5Account}
    (h : ownAccount t userId id = some account) : account ∈ t.rows ∧ account.id = id := by
  obtain ⟨hfind, -⟩ := Option.filter_eq_some_iff.mp h
  exact Table.find?_eq_some.mp hfind

variable {encrypt : String → Nat → String}

private theorem encryptField_eq_ok {field : Option (Option String)} {salt : Nat} {text : Option String} :
    encryptField encrypt field salt = .ok text ↔
      field ≠ some none ∧ text = field.join.map fun plain => encrypt plain salt := by
  match field with
  | none => exact ⟨fun h => ⟨by simp, (Except.ok.inj h).symm⟩, fun h => by rw [h.2]; rfl⟩
  | some none => exact ⟨fun h => (by cases h), fun h => absurd rfl h.1⟩
  | some (some plain) =>
      exact ⟨fun h => ⟨by simp, (Except.ok.inj h).symm⟩, fun h => by rw [h.2]; rfl⟩

theorem loginTaken_eq_false {t : AccountTable} {userId : Nat} {login : String} :
    loginTaken t userId login = false ↔ ∀ row ∈ t.rows, row.login = login → row.userId ≠ userId := by
  simp only [loginTaken, List.any_eq_false, Bool.and_eq_true, decide_eq_true_eq, not_and]

private theorem createAccount_of_creates {t : AccountTable} {request : AccountRequest} {data : AccountCreate}
    (h : Creates encrypt t request data) :
    ∃ t', createAccount encrypt request data (Session.start t) =
        (.ok [masked data.login (newAccount encrypt request data)],
          ⟨t', [masked data.login (newAccount encrypt request data)], [], []⟩) ∧
      Written t t' (newAccount encrypt request data) := by
  obtain ⟨hcommits, hfresh, hother⟩ := h
  have htaken : loginTaken (Session.start t).table request.userId
      (encrypt data.login (request.salt 0)) = false := loginTaken_eq_false.mpr hother
  obtain ⟨t', hcommit, hwritten⟩ := Session.commit_add_fresh
    (show MT5Account.id (newAccount encrypt request data) ∉ t.rows.map MT5Account.id from hfresh)
  refine ⟨t', ?_, hwritten⟩
  rw [createAccount, htaken, hcommits, hcommit]
  simp only [Session.modify, List.map_cons, List.map_nil, newAccount, if_true,
    Bool.false_eq_true, if_false]

private theorem createAccount_of_not_creates {t : AccountTable} {request : AccountRequest}
    {data : AccountCreate} (h : ¬ Creates encrypt t request data) :
    ∃ err, createAccount encrypt request data (Session.start t) = (.error err, Session.start t) := by
  unfold createAccount
  split
  · exact ⟨_, rfl⟩
  rename_i htaken
  split
  · exact ⟨_, rfl⟩
  rename_i session hsession
  exfalso
  apply h
  cases hcommits : request.commits with
  | false =>
      rw [hcommits] at hsession
      cases hsession
  | true =>
      rw [hcommits] at hsession
      obtain ⟨hfresh, -⟩ := Session.commit_add hsession
      exact ⟨hcommits, hfresh, loginTaken_eq_false.mp (Bool.eq_false_iff.mpr htaken)⟩

/-! ### Updates -/

theorem assignAccount_eq_ok {data : AccountUpdate} {salt : Nat → Nat} {account account' : MT5Account} :
    assignAccount encrypt data salt account = .ok account' ↔ NoNulls data ∧ account' = { account with
      login := (data.login.join.map fun plain => encrypt plain (salt 0)).getD account.login
      password := (data.password.join.map fun plain => encrypt plain (salt 1)).getD account.password
      server := data.server.join.getD account.server
      isActive := data.isActive.join.getD account.isActive
      balanceCache := data.balanceCache.getD account.balanceCache
      equityCache := data.equityCache.getD account.equityCache
      lastSync := data.lastSync.getD account.lastSync } := by
  simp only [assignAccount, bind_eq_ok, pure_eq_ok, encryptField_eq_ok, notNull_eq_ok, NoNulls]
  constructor
  · rintro ⟨_, ⟨hlogin, rfl⟩, _, ⟨hpassword, rfl⟩, _, ⟨hserver, rfl⟩, _, ⟨hactive, rfl⟩, rfl⟩
    exact ⟨⟨hlogin, hpassword, hserver, hactive⟩, rfl⟩
  · rintro ⟨⟨hlogin, hpassword, hserver, hactive⟩, rfl⟩
    exact ⟨_, ⟨hlogin, rfl⟩, _, ⟨hpassword, rfl⟩, _, ⟨hserver, rfl⟩, _, ⟨hactive, rfl⟩, rfl⟩

private theorem updateAccount_of_updates {t : AccountTable} {request : AccountRequest} {id : Nat}
    {data : AccountUpdate} (h : Updates t request id data) :
    ∃ account account', ownAccount t request.userId id = some account ∧
      assignAccount encrypt data request.salt account = .ok account' ∧
      updateAccount encrypt request id data (Session.start t) = (.ok [masked account'.login account'],
        ⟨t.overwrite [account'], [masked account'.login account'], [], []⟩) ∧
      Written t (t.overwrite [account']) account' := by
  obtain ⟨hcommits, hown, hnulls⟩ := h
  obtain ⟨account, haccount⟩ := Option.isSome_iff_exists.mp hown
  obtain ⟨hmem, hid⟩ := ownAccount_eq_some haccount
  obtain ⟨account', hassign⟩ : ∃ account', assignAccount encrypt data request.salt account =
      .ok account' := ⟨_, assignAccount_eq_ok.mpr ⟨hnulls, rfl⟩⟩
  have hid' : account'.id = id := by
    rw [(assignAccount_eq_ok.mp hassign).2]
    exact hid
  refine ⟨account, account', haccount, hassign, ?_, ?_⟩
  · have hown' : ownAccount (Session.start t).table request.userId id = some account := haccount
    simp only [updateAccount, hown', hassign, hcommits, Session.commit_change hid]
    simp only [Session.modify, List.map_cons, List.map_nil, hid', if_true]
  · apply Table.written_overwrite
    rw [hid', ← hid]
    exact List.mem_map_of_mem hmem

private theorem updateAccount_of_not_updates {t : AccountTable} {request : AccountRequest} {id : Nat}
    {data : AccountUpdate} (h : ¬ Updates t request id data) :
    ∃ err session, updateAccount encrypt request id data (Session.start t) = (.error err, session) ∧
      session.table = t := by
  unfold updateAccount
  cases hown : ownAccount t request.userId id with
  | none =>
      refine ⟨accountNotFound id, Session.start t, ?_, rfl⟩
      simp only [Session.start, hown]
  | some account =>
      simp only [Session.start, hown]
      cases hassign : assignAccount encrypt data request.salt account with
      | error err => exact ⟨err, _, rfl, rfl⟩
      | ok account' =>
          cases hcommits : request.commits with
          | false => exact ⟨_, _, rfl, rfl⟩
          | true =>
              refine absurd ⟨hcommits, ?_, (assignAccount_eq_ok.mp hassign).1⟩ h
              rw [hown]
              rfl

/-! ### What a request does -/

/-- The effect of a request that writes: its account is stored, masked if the last commit is
accepted, and its credentials are the submitted ones. -/
structure Stored (encrypt : String → Nat → String) (decrypt : String → Option String)
    (s : AccountStore) (request : AccountRequest) (account : MT5Account) : Prop where
  table : ∃ login, Written s.table (s.step encrypt request).table
    (if request.teardownCommits then masked login account else account)
  others : ∀ id ≠ account.id, (s.step encrypt request).submitted id = s.submitted id
  password : PasswordsSurvive decrypt s → ∃ login password,
    (s.step encrypt request).submitted account.id = some (login, password) ∧
      decrypt account.password = some password
  login : CredentialsSurvive decrypt s → ∃ login password,
    (s.step encrypt request).submitted account.id = some (login, password) ∧
      decrypt account.login = some login ∧ decrypt account.password = some password

variable {decrypt : String → Option String}

private theorem stored_create (hdecrypt : ∀ text salt, decrypt (encrypt text salt) = some text)
    {s : AccountStore} {request : AccountRequest} {data : AccountCreate}
    (hcall : request.call = .create data) (h : Creates encrypt s.table request data) :
    Stored encrypt decrypt s request (newAccount encrypt request data) := by
  obtain ⟨t', hcreate, hwritten⟩ := createAccount_of_creates h
  have hhandle : handleAccount encrypt request (Session.start s.table) =
      createAccount encrypt request data (Session.start s.table) := by
    simp only [handleAccount, hcall]
  rw [hcreate] at hhandle
  have hsubmitted : (s.step encrypt request).submitted =
      Function.update s.submitted request.newId (some (data.login, data.password)) := by
    simp only [AccountStore.step, hhandle, noteSubmitted, hcall]
  have hown : (s.step encrypt request).submitted (newAccount encrypt request data).id =
      some (data.login, data.password) := by
    rw [hsubmitted]
    exact Function.update_self _ _ _
  refine ⟨⟨data.login, ?_⟩, ?_, ?_, ?_⟩
  · have hid : (masked data.login (newAccount encrypt request data)).id = request.newId := rfl
    simp only [AccountStore.step, hhandle]
    exact Session.written_teardown hwritten hid _ _
  · intro id hid
    rw [hsubmitted]
    exact Function.update_of_ne hid _ _
  · exact fun _ => ⟨data.login, data.password, hown, hdecrypt _ _⟩
  · exact fun _ => ⟨data.login, data.password, hown, hdecrypt _ _, hdecrypt _ _⟩

theorem decrypt_getD (hdecrypt : ∀ text salt, decrypt (encrypt text salt) = some text)
    {field : Option String} {salt : Nat} {stored plain : String} (h : decrypt stored = some plain) :
    decrypt ((field.map fun text => encrypt text salt).getD stored) = some (field.getD plain) := by
  cases field with
  | none => exact h
  | some text => exact hdecrypt text salt

private theorem stored_update (hdecrypt : ∀ text salt, decrypt (encrypt text salt) = some text)
    {s : AccountStore} {request : AccountRequest} {id : Nat} {data : AccountUpdate}
    (hcall : request.call = .update id data) (h : Updates s.table request id data) :
    ∃ account, Stored encrypt decrypt s request account := by
  obtain ⟨old, account, hown, hassign, hupdate, hwritten⟩ :=
    @updateAccount_of_updates encrypt _ _ _ _ h
  obtain ⟨hmem, hid⟩ := ownAccount_eq_some hown
  obtain ⟨-, haccount⟩ := assignAccount_eq_ok.mp hassign
  have haccountId : account.id = id := by
    rw [haccount]
    exact hid
  have hhandle : handleAccount encrypt request (Session.start s.table) =
      updateAccount encrypt request id data (Session.start s.table) := by
    simp only [handleAccount, hcall]
  rw [hupdate] at hhandle
  have hsubmitted : (s.step encrypt request).submitted =
      Function.update s.submitted id ((s.submitted id).map fun old =>
        (data.login.join.getD old.1, data.password.join.getD old.2)) := by
    simp only [AccountStore.step, hhandle, noteSubmitted, hcall]
  have hnew : ∀ {login password}, s.submitted old.id = some (login, password) →
      (s.step encrypt request).submitted account.id =
        some (data.login.join.getD login, data.password.join.getD password) := by
    intro login password hold
    rw [hsubmitted, haccountId, Function.update_self, ← hid, hold]
    rfl
  refine ⟨account, ⟨account.login, ?_⟩, ?_, ?_, ?_⟩
  · have hid' : (masked account.login account).id = account.id := rfl
    simp only [AccountStore.step, hhandle]
    exact Session.written_teardown hwritten hid' _ _
  · intro other hother
    rw [hsubmitted]
    exact Function.update_of_ne (haccountId ▸ hother) _ _
  · intro hpasswords
    obtain ⟨login, password, hold, hpassword⟩ := hpasswords old hmem
    refine ⟨_, _, hnew hold, ?_⟩
    rw [haccount]
    exact decrypt_getD hdecrypt hpassword
  · intro hcredentials
    obtain ⟨login, password, hold, hlogin, hpassword⟩ := hcredentials old hmem
    refine ⟨_, _, hnew hold, ?_, ?_⟩
    · rw [haccount]
      exact decrypt_getD hdecrypt hlogin
    · rw [haccount]
      exact decrypt_getD hdecrypt hpassword

private theorem foldl_load (rows : List MT5Account) (session : AccountSession) :
    rows.foldl Session.load session = { session with objects := rows.reverse ++ session.objects } := by
  induction rows generalizing session with
  | nil => rfl
  | cons row rest ih =>
      rw [List.foldl_cons, ih, List.reverse_cons, List.append_assoc]
      rfl

/-- Every row a request leaves was there before or is the one the request writes. -/
theorem step_of_not_writes {s : AccountStore} {request : AccountRequest}
    (h : ¬ Writes encrypt s request) :
    (∀ row ∈ (s.step encrypt request).table.rows, row ∈ s.table.rows) ∧
      (s.step encrypt request).submitted = s.submitted := by
  unfold Writes at h
  cases hcall : request.call with
  | list =>
      have hsub : ∀ object ∈ ((s.table.rows.filter fun account =>
          decide (account.userId = request.userId)).reverse ++ []), object ∈ s.table.rows := by
        intro object hobject
        rw [List.append_nil, List.mem_reverse] at hobject
        exact List.mem_of_mem_filter hobject
      simp only [AccountStore.step, handleAccount, hcall, noteSubmitted, listAccounts, foldl_load,
        Session.start, Session.teardown_read hsub]
      exact ⟨fun row hrow => hrow, trivial⟩
  | get id =>
      simp only [AccountStore.step, handleAccount, hcall, noteSubmitted, getAccount, Session.start]
      cases hown : ownAccount s.table request.userId id with
      | none => exact ⟨fun row hrow => hrow, rfl⟩
      | some account =>
          have hsub : ∀ object ∈ [account], object ∈ s.table.rows := by
            intro object hobject
            rw [List.mem_singleton.mp hobject]
            exact (ownAccount_eq_some hown).1
          simp only [Session.load, Session.teardown_read hsub]
          exact ⟨fun row hrow => hrow, trivial⟩
  | create data =>
      rw [hcall] at h
      obtain ⟨err, herr⟩ := createAccount_of_not_creates h
      simp only [AccountStore.step, handleAccount, hcall, herr, Session.teardown]
      exact ⟨fun row hrow => hrow, trivial⟩
  | update id data =>
      rw [hcall] at h
      obtain ⟨err, session, herr, htable⟩ := @updateAccount_of_not_updates encrypt _ _ _ _ h
      simp only [AccountStore.step, handleAccount, hcall, herr, Session.teardown, htable]
      exact ⟨fun row hrow => hrow, trivial⟩
  | delete id =>
      simp only [AccountStore.step, handleAccount, hcall, noteSubmitted, deleteAccount, Session.start]
      cases hown : ownAccount s.table request.userId id with
      | none => exact ⟨fun row hrow => hrow, rfl⟩
      | some account =>
          cases hcommits : request.commits with
          | false => exact ⟨fun row hrow => hrow, rfl⟩
          | true =>
              refine ⟨fun row hrow => ?_, rfl⟩
              exact Session.mem_of_mem_teardown_remove (ownAccount_eq_some hown).1
                request.teardownCommits (Except.ok [] : Except ApiError (List MT5Account)) rfl hrow

theorem stored_of_writes (hdecrypt : ∀ text salt, decrypt (encrypt text salt) = some text)
    {s : AccountStore} {request : AccountRequest} (h : Writes encrypt s request) :
    ∃ account, Stored encrypt decrypt s request account := by
  unfold Writes at h
  cases hcall : request.call with
  | create data =>
      rw [hcall] at h
      exact ⟨_, stored_create hdecrypt hcall h⟩
  | update id data =>
      rw [hcall] at h
      exact stored_update hdecrypt hcall h
  | list | get id | delete id =>
      rw [hcall] at h
      exact h.elim

/-! ### Runs -/

private theorem passwordsSurvive_step (hdecrypt : ∀ text salt, decrypt (encrypt text salt) = some text)
    {s : AccountStore} {request : AccountRequest} (h : PasswordsSurvive decrypt s) :
    PasswordsSurvive decrypt (s.step encrypt request) := by
  intro row hrow
  by_cases hwrites : Writes encrypt s request
  · obtain ⟨account, hstored⟩ := stored_of_writes hdecrypt hwrites
    obtain ⟨login, htable⟩ := hstored.table
    rcases (htable row).mp hrow with rfl | ⟨hold, hne⟩
    · have hfinal := hstored.password h
      cases request.teardownCommits <;> exact hfinal
    · have hid : row.id ≠ account.id := by
        cases hteardown : request.teardownCommits <;>
        · rw [hteardown] at hne
          exact hne
      rw [hstored.others row.id hid]
      exact h row hold
  · obtain ⟨hsub, hsubmitted⟩ := step_of_not_writes hwrites
    rw [hsubmitted]
    exact h row (hsub row hrow)

private theorem credentialsSurvive_step (hdecrypt : ∀ text salt, decrypt (encrypt text salt) = some text)
    {s : AccountStore} {request : AccountRequest} (h : CredentialsSurvive decrypt s)
    (hmask : ¬ StoresMask encrypt s request) :
    CredentialsSurvive decrypt (s.step encrypt request) := by
  intro row hrow
  by_cases hwrites : Writes encrypt s request
  · have hteardown : request.teardownCommits = false := by
      rw [← Bool.not_eq_true]
      exact fun hcommits => hmask ⟨hcommits, hwrites⟩
    obtain ⟨account, hstored⟩ := stored_of_writes hdecrypt hwrites
    obtain ⟨login, htable⟩ := hstored.table
    rw [hteardown] at htable
    rcases (htable row).mp hrow with rfl | ⟨hold, hne⟩
    · exact hstored.login h
    · rw [hstored.others row.id hne]
      exact h row hold
  · obtain ⟨hsub, hsubmitted⟩ := step_of_not_writes hwrites
    rw [hsubmitted]
    exact h row (hsub row hrow)

/-- The password column keeps the last submitted password through every run. -/
theorem passwords_survive (hdecrypt : ∀ text salt, decrypt (encrypt text salt) = some text)
    (requests : List AccountRequest) :
    ∀ t ∈ visited (AccountStore.step encrypt) AccountStore.empty requests,
      PasswordsSurvive decrypt t :=
  visited_invariant (passwordsSurvive_step hdecrypt) (List.forall_mem_nil _)

private theorem maskLogin_length (login : String) : (maskLogin login).length ≤ 8 := by
  have hstars : "****".length = 4 := rfl
  have hlast : (String.ofList (login.toList.drop (login.length - 4))).length =
      login.length - (login.length - 4) := by
    rw [String.length_ofList, List.length_drop, String.length_toList]
  rw [maskLogin, String.length_append, hstars, hlast]
  omega

private theorem mask_stored (hdecrypt : ∀ text salt, decrypt (encrypt text salt) = some text)
    {s : AccountStore} {request : AccountRequest} (h : StoresMask encrypt s request) :
    ∃ row ∈ (s.step encrypt request).table.rows, ∃ login, row.login = maskLogin login := by
  obtain ⟨hteardown, hwrites⟩ := h
  obtain ⟨account, hstored⟩ := stored_of_writes hdecrypt hwrites
  obtain ⟨login, htable⟩ := hstored.table
  rw [hteardown] at htable
  exact ⟨masked login account, (htable _).mpr (Or.inl rfl), login, rfl⟩

/-- Every login in every state of a run decrypts to the submitted one exactly if no request of the
run stores a mask. -/
theorem credentials_survive_iff (hdecrypt : ∀ text salt, decrypt (encrypt text salt) = some text)
    (hshort : ∀ text : String, text.length ≤ 8 → decrypt text = none)
    (requests : List AccountRequest) :
    (∀ t ∈ visited (AccountStore.step encrypt) AccountStore.empty requests,
        CredentialsSurvive decrypt t) ↔
      Along (AccountStore.step encrypt) (fun s request => ¬ StoresMask encrypt s request)
        AccountStore.empty requests := by
  have hkeeps : ∀ {s : AccountStore} {request : AccountRequest}, CredentialsSurvive decrypt s →
      ¬ StoresMask encrypt s request → CredentialsSurvive decrypt (s.step encrypt request) :=
    credentialsSurvive_step hdecrypt
  have hloses : ∀ {s : AccountStore} {request : AccountRequest}, True → CredentialsSurvive decrypt s →
      CredentialsSurvive decrypt (s.step encrypt request) → ¬ StoresMask encrypt s request := by
    intro s request _ _ hnext hmask
    obtain ⟨row, hrow, login, hlogin⟩ := mask_stored hdecrypt hmask
    obtain ⟨plain, _, _, hplain, -⟩ := hnext row hrow
    rw [hlogin, hshort _ (maskLogin_length login)] at hplain
    cases hplain
  constructor
  · exact along_of_visited (fun _ => trivial) hloses trivial
  · exact visited_of_along hkeeps (List.forall_mem_nil _)

/-- A token with a version header and one character drawn from the salt. -/
def sealText (text : String) (salt : Nat) : String :=
  String.ofList ('g' :: 'A' :: 'A' :: 'A' :: 'A' :: 'A' :: 'B' :: Char.ofNat (97 + salt % 26) :: '=' ::
    text.toList)

def openText (token : String) : Option String :=
  match token.toList with
  | 'g' :: 'A' :: 'A' :: 'A' :: 'A' :: 'A' :: 'B' :: _ :: '=' :: text => some (String.ofList text)
  | _ => none

private theorem openText_sealText (text : String) (salt : Nat) :
    openText (sealText text salt) = some text := by
  rw [openText, sealText, String.toList_ofList]
  exact congrArg some String.ofList_toList

private theorem openText_of_short (text : String) (h : text.length ≤ 8) : openText text = none := by
  rw [← String.length_toList] at h
  unfold openText
  split
  · rename_i rest htext
    rw [htext] at h
    simp only [List.length_cons] at h
    omega
  · rfl

def openAccount : AccountRequest where
  userId := 1
  call := .create ⟨"1000234", "secret", "Broker-Demo", true⟩
  newId := 1
  commits := true
  teardownCommits := true
  salt := id

/-- The commit at the end of the request is refused, and the account is deleted later. -/
theorem credentials_survive_iff_of_openAccount :
    let states := visited (AccountStore.step sealText) AccountStore.empty
      [{ openAccount with teardownCommits := false }, { openAccount with call := .list },
        { openAccount with call := .delete 1 }]
    states.map (fun t => t.table.rows.map MT5Account.login) =
        [[], ["gAAAAABb=1000234"], ["gAAAAABb=1000234"], []] ∧
      ∀ t ∈ states, CredentialsSurvive openText t :=
  ⟨by decide, (credentials_survive_iff openText_sealText openText_of_short _).mpr
    ⟨fun h => Bool.false_ne_true h.1, fun h => h.2, fun h => h.2, trivial⟩⟩

/-- After one created account the stored login is `****0234`. -/
theorem created_login_lost :
    ¬ ∀ t ∈ visited (AccountStore.step sealText) AccountStore.empty [openAccount],
      CredentialsSurvive openText t := by
  intro h
  have hlast : AccountStore.step sealText AccountStore.empty openAccount ∈
      visited (AccountStore.step sealText) AccountStore.empty [openAccount] :=
    foldl_mem_visited (AccountStore.step sealText) AccountStore.empty [openAccount]
  have hlogins : (AccountStore.step sealText AccountStore.empty openAccount).table.rows.map
      MT5Account.login = ["****0234"] := by
    decide
  obtain ⟨row, hrow, hlogin⟩ : ∃ row ∈ (AccountStore.step sealText AccountStore.empty
      openAccount).table.rows, row.login = "****0234" :=
    List.mem_map.mp (hlogins ▸ List.mem_singleton_self _)
  obtain ⟨login, password, -, hopen, -⟩ := h _ hlast row hrow
  rw [hlogin] at hopen
  cases hopen

end SphereFx.Api
