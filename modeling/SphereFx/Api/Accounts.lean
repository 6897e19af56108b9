import SphereFx.Base.Run
import SphereFx.Base.Session
import SphereFx.Api.Models

/-!
# MT5 accounts and their stored credentials

The handlers of `routes/v1/accounts.py` with the session they run in. After its own commit a handler
masks the login of the object it answers with. That object is persistent, so the commit that ends the
request stores the mask.

Encryption is a parameter: `encrypt` also takes what Fernet draws anew for every token, and `decrypt`
fails on a text that is not a token.
-/

namespace SphereFx.Api

abbrev AccountTable := Table MT5Account MT5Account.id

abbrev AccountSession := Session MT5Account MT5Account.id

/-! ### Requests -/

structure AccountCreate where
  login : String
  password : String
  server : String
  isActive : Bool

/-- An update: a field that was not set is `none`, an explicit null is `some none`. -/
structure AccountUpdate where
  login : Option (Option String)
  password : Option (Option String)
  server : Option (Option String)
  isActive : Option (Option Bool)
  balanceCache : Option (Option ℚ)
  equityCache : Option (Option ℚ)
  lastSync : Option (Option Nat)

inductive AccountCall where
  | list
  | get (id : Nat)
  | create (data : AccountCreate)
  | update (id : Nat) (data : AccountUpdate)
  | delete (id : Nat)

/-- A call by a user, with what the database and the encryption bring to it: the next identity value,
whether the handler's commit and the one at the end are accepted, and the randomness of the tokens. -/
structure AccountRequest where
  userId : Nat
  call : AccountCall
  newId : Nat
  commits : Bool
  teardownCommits : Bool
  salt : Nat → Nat

/-- `"****" + login[-4:]`. -/
def maskLogin (login : String) : String :=
  "****" ++ String.ofList (login.toList.drop (login.length - 4))

section Handlers

variable (encrypt : String → Nat → String)

/-- `encrypt_password` on a field of the update, if it was set. -/
def encryptField (field : Option (Option String)) (salt : Nat) : Except ApiError (Option String) :=
  match field with
  | none => .ok none
  | some none => .error (.unhandled "'NoneType' object has no attribute 'encode'")
  | some (some text) => .ok (some (encrypt text salt))

def assignAccount (data : AccountUpdate) (salt : Nat → Nat) (account : MT5Account) :
    Except ApiError MT5Account := do
  let login ← encryptField encrypt data.login (salt 0)
  let password ← encryptField encrypt data.password (salt 1)
  let server ← notNull data.server
  let isActive ← notNull data.isActive
  return { account with
    login := login.getD account.login
    password := password.getD account.password
    server := server.getD account.server
    isActive := isActive.getD account.isActive
    balanceCache := data.balanceCache.getD account.balanceCache
    equityCache := data.equityCache.getD account.equityCache
    lastSync := data.lastSync.getD account.lastSync }

def ownAccount (table : AccountTable) (userId id : Nat) : Option MT5Account :=
  (table.find? id).filter fun account => account.userId = userId

def accountNotFound (id : Nat) : ApiError := .notFound ("Account " ++ toString id ++ " not found")

/-- The duplicate check of `create_account`, on the encrypted login. -/
def loginTaken (table : AccountTable) (userId : Nat) (encryptedLogin : String) : Bool :=
  table.rows.any fun row => row.login = encryptedLogin && row.userId = userId

def newAccount (request : AccountRequest) (data : AccountCreate) : MT5Account where
  id := request.newId
  userId := request.userId
  login := encrypt data.login (request.salt 1)
  password := encrypt data.password (request.salt 2)
  server := data.server
  isActive := data.isActive
  balanceCache := none
  equityCache := none
  lastSync := none

/-- The assignment of a mask to the object a handler answers with. -/
def masked (login : String) (account : MT5Account) : MT5Account :=
  { account with login := maskLogin login }

def createAccount (request : AccountRequest) (data : AccountCreate) (session : AccountSession) :
    Except ApiError (List MT5Account) × AccountSession :=
  if loginTaken session.table request.userId (encrypt data.login (request.salt 0)) then
    (.error (.conflict "Account with this login already exists for this user"), session)
  else
    match (session.add (newAccount encrypt request data)).commit request.commits with
    | none => (.error (.unhandled "commit failed"), session)
    | some session =>
        (.ok [masked data.login (newAccount encrypt request data)],
          session.modify request.newId (masked data.login))

def updateAccount (request : AccountRequest) (id : Nat) (data : AccountUpdate)
    (session : AccountSession) : Except ApiError (List MT5Account) × AccountSession :=
  match ownAccount session.table request.userId id with
  | none => (.error (accountNotFound id), session)
  | some account =>
      match assignAccount encrypt data request.salt account with
      | .error err => (.error err, session.load account)
      | .ok account' =>
          match ((session.load account).modify id fun _ => account').commit request.commits with
          | none => (.error (.unhandled "commit failed"), session)
          | some session =>
              (.ok [masked account'.login account'],
                session.modify id fun account => masked account.login account)

def deleteAccount (request : AccountRequest) (id : Nat) (session : AccountSession) :
    Except ApiError (List MT5Account) × AccountSession :=
  match ownAccount session.table request.userId id with
  | none => (.error (accountNotFound id), session)
  | some account =>
      match ((session.load account).remove id).commit request.commits with
      | none => (.error (.unhandled "commit failed"), session)
      | some session => (.ok [], session)

def getAccount (request : AccountRequest) (id : Nat) (session : AccountSession) :
    Except ApiError (List MT5Account) × AccountSession :=
  match ownAccount session.table request.userId id with
  | none => (.error (accountNotFound id), session)
  | some account => (.ok [account], session.load account)

def listAccounts (request : AccountRequest) (session : AccountSession) :
    Except ApiError (List MT5Account) × AccountSession :=
  let accounts := session.table.rows.filter fun account => account.userId = request.userId
  (.ok accounts, accounts.foldl Session.load session)

def handleAccount (request : AccountRequest) (session : AccountSession) :
    Except ApiError (List MT5Account) × AccountSession :=
  match request.call with
  | .list => listAccounts request session
  | .get id => getAccount request id session
  | .create data => createAccount encrypt request data session
  | .update id data => updateAccount encrypt request id data session
  | .delete id => deleteAccount request id session

/-! ### Runs of requests -/

/-- The table, and for each account id the credentials last stored for it. -/
structure AccountStore where
  table : AccountTable
  submitted : Nat → Option (String × String)

def AccountStore.empty : AccountStore := ⟨Table.empty, fun _ => none⟩

/-- What a call that returned has submitted. -/
def noteSubmitted (request : AccountRequest) (submitted : Nat → Option (String × String)) :
    Nat → Option (String × String) :=
  match request.call with
  | .create data => Function.update submitted request.newId (some (data.login, data.password))
  | .update id data => Function.update submitted id ((submitted id).map fun old =>
      (data.login.join.getD old.1, data.password.join.getD old.2))
  | _ => submitted

def AccountStore.step (s : AccountStore) (request : AccountRequest) : AccountStore :=
  let outcome := handleAccount encrypt request (Session.start s.table)
  { table := Session.teardown request.teardownCommits outcome
    submitted := match outcome.1 with
      | .ok _ => noteSubmitted request s.submitted
      | .error _ => s.submitted }

end Handlers

end SphereFx.Api
