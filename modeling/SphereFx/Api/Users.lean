import Mathlib.Algebra.Order.Group.Nat
import SphereFx.Api.Models
import SphereFx.Base.CheckInsert

/-!
# Registration and login

`register_user` and `login` of `routes/v1/user.py`. The database compares emails by its collation, in
a query as in the unique index, and bcrypt is known by the passwords it does not tell apart. No other
endpoint stores a user: `PUT /me` changes an object that belongs to no session.
-/

namespace SphereFx.Api.Users

open CheckInsert

/-- A validated `UserCreate`. -/
structure UserCreate where
  email : String
  password : String
  role : Option String
  password_long : 8 ≤ password.length
  role_known : ∀ r ∈ role, r = "admin" ∨ r = "user"

structure UserLogin where
  email : String
  password : String

structure User where
  id : Nat
  email : String
  hashedPassword : String
  isActive : Bool
  role : String

/-- The identity value of a new row and the salt of its hash. -/
structure Entry where
  id : Nat
  salt : Nat

inductive LoginError where
  | authentication (message : String)
  | unhandled (text : String)
  deriving DecidableEq

/-- `role or "user"`. -/
def roleOrUser : Option String → String
  | none => "user"
  | some role => if role = "" then "user" else role

section

variable {ι : Type} (hash : String → Nat → Option String) (verify : String → String → Option Bool)
  (collate : String → String)

/-- The row of a registration, unless `hash_password` raises. -/
def newUser (data : UserCreate) (entry : Entry) : Option User :=
  (hash data.password entry.salt).map fun hashed => {
    id := entry.id
    email := data.email
    hashedPassword := hashed
    isActive := true
    role := roleOrUser data.role }

theorem newUser_eq_some {data : UserCreate} {entry : Entry} {user : User}
    (h : newUser hash data entry = some user) :
    user.email = data.email ∧ user.isActive = true ∧ user.role = roleOrUser data.role ∧
      hash data.password entry.salt = some user.hashedPassword := by
  obtain ⟨hashed, hhashed, rfl⟩ := Option.map_eq_some_iff.mp h
  exact ⟨rfl, rfl, rfl, hhashed⟩

/-- `register_user` for any number of requests. The `SELECT` of a request, the commit of its row and
what follows it, `session.refresh` and the answer, are steps of their own; between the first two it
hashes the password. -/
def registration (requests : ι → UserCreate) : Scheme ι User String Entry where
  key user := collate user.email
  wanted request := collate (requests request).email
  build request entry := newUser hash (requests request) entry
  key_build h := congrArg collate (newUser_eq_some hash h).1
  fits users user := decide (user.id ∉ users.map User.id)

/-- What the client of a registration is told. -/
def answer : Phase → Option (Except ApiError Unit)
  | .idle | .absent | .stored => none
  | .taken => some (.error (.conflict "Email already registered"))
  | .confirmed => some (.ok ())
  | .duplicate => some (.error (.unhandled "IntegrityError"))
  | .unconfirmed | .failed => some (.error (.unhandled "Internal server error"))

/-- `login`, whose token names a user. -/
def login (users : List User) (data : UserLogin) : Except LoginError Nat :=
  match scalarOneOrNone (users.filter fun user => collate user.email = collate data.email) with
  | .error _ => .error (.unhandled "MultipleResultsFound")
  | .ok none => .error (.authentication "Invalid email or password")
  | .ok (some user) =>
      if user.isActive = false then .error (.authentication "Invalid email or password")
      else
        match verify data.password user.hashedPassword with
        | none => .error (.unhandled "verify_password raised")
        | some false => .error (.authentication "Invalid email or password")
        | some true => .ok user.id

/-- A request has stored a user, and this is the row. -/
def Created (requests : ι → UserCreate) (s : State ι User) (request : ι) (user : User) : Prop :=
  (s.phase request).hasStored = true ∧ user ∈ s.rows ∧
    ∃ entry, newUser hash (requests request) entry = some user

end

/-! ### One user for an email -/

section

variable {ι : Type} [DecidableEq ι] {hash : String → Nat → Option String}
  {verify : String → String → Option Bool} {collate : String → String} {requests : ι → UserCreate}

private theorem roleOrUser_known (data : UserCreate) :
    roleOrUser data.role = "admin" ∨ roleOrUser data.role = "user" := by
  cases hrole : data.role with
  | none => exact .inr rfl
  | some role =>
      rcases data.role_known role hrole with rfl | rfl
      · exact .inl rfl
      · exact .inr rfl

private theorem ids_unique {users : List User} (h : (users.map User.id).Nodup) {s : State ι User}
    {actions : List (Action ι Entry)}
    (hrun : runFrom (registration hash collate requests).step (start users) actions = some s) :
    (s.rows.map User.id).Nodup := by
  refine @Scheme.runFrom_rows _ _ _ _ _ _ (registration hash collate requests)
    (fun rows => (rows.map User.id).Nodup) ?_ users s actions h hrun
  intro rows row hrows hfits
  exact List.nodup_cons.mpr ⟨of_decide_eq_true hfits, hrows⟩

private theorem conflict_or_created {phase : Phase} {reply : Except ApiError Unit}
    (h : answer phase = some reply) (hreply : reply ≠ .error (.unhandled "Internal server error")) :
    phase = .taken ∨ phase = .duplicate ∨ phase.hasStored = true := by
  cases phase with
  | taken => exact .inl rfl
  | duplicate => exact .inr (.inl rfl)
  | stored | confirmed | unconfirmed => exact .inr (.inr rfl)
  | idle | absent => cases h
  | failed => exact absurd (Option.some.inj h).symm hreply

private theorem hasStored_of_success {phase : Phase} (h : answer phase = some (.ok ())) :
    phase.hasStored = true := by
  cases phase <;> first | rfl | cases h

/-- Concurrent registrations keep one user for an email. Every user was there before or is the row of
one request, with that request's email and a known role; no user is lost or changed. A request that is
answered with success has stored its user. Once a request for a new email is answered, if only by a
conflict, exactly one request for that email has stored its user; a fault after its commit may leave
its client without the answer. -/
theorem registered_once {users : List User} (hemails : (users.map fun u => collate u.email).Nodup)
    (hids : (users.map User.id).Nodup) {s : State ι User} {actions : List (Action ι Entry)}
    (hrun : runFrom (registration hash collate requests).step (start users) actions = some s) :
    (s.rows.map fun u => collate u.email).Nodup ∧ (s.rows.map User.id).Nodup ∧
      (∀ user ∈ users, user ∈ s.rows) ∧
      (∀ user ∈ s.rows, user ∈ users ∨ ∃ request, Created hash requests s request user ∧
        user.email = (requests request).email ∧ (user.role = "admin" ∨ user.role = "user")) ∧
      (∀ request, answer (s.phase request) = some (.ok ()) →
        ∃ user, Created hash requests s request user) ∧
      ∀ request reply, answer (s.phase request) = some reply →
        reply ≠ .error (.unhandled "Internal server error") →
        (∀ user ∈ users, collate user.email ≠ collate (requests request).email) →
        ∃! winner, (∃ user, Created hash requests s winner user) ∧
          collate (requests winner).email = collate (requests request).email := by
  have hkept := Scheme.Kept.run hemails hrun
  have hcreated : ∀ request, (s.phase request).hasStored = true →
      ∃ user, Created hash requests s request user := by
    intro request hstored
    obtain ⟨entry, user, hbuild, huser, -⟩ := hkept.stored_mem request hstored
    exact ⟨user, hstored, huser, entry, hbuild⟩
  refine ⟨hkept.unique, ids_unique hids hrun, hkept.first_mem, fun user huser => ?_,
    fun request hsuccess => hcreated request (hasStored_of_success hsuccess),
    fun request reply hreply hreal hfree => ?_⟩
  · rcases hkept.origin user huser with hold | ⟨request, entry, hstored, hbuild⟩
    · exact .inl hold
    · obtain ⟨hemail, -, hrole, -⟩ := newUser_eq_some hash hbuild
      exact .inr ⟨request, ⟨hstored, huser, entry, hbuild⟩, hemail,
        hrole ▸ roleOrUser_known (requests request)⟩
  · have hdone := conflict_or_created hreply hreal
    have hnew : collate (requests request).email ∉ users.map fun u => collate u.email := by
      simpa using hfree
    obtain ⟨winner, hstored, hwanted⟩ := hkept.exists_stored hnew hdone
    refine ⟨winner, ⟨hcreated winner hstored, hwanted⟩, fun other hother => ?_⟩
    obtain ⟨⟨user, hstored', -⟩, hwanted'⟩ := hother
    exact hkept.alone other winner hstored' hstored (hwanted'.trans hwanted.symm)

/-- Two requests for one email, both of which find it free. -/
def twoRequests (second : Bool) : UserCreate where
  email := "trader@example.com"
  password := if second then "correct horse" else "battery staple"
  role := none
  password_long := by cases second <;> decide
  role_known := nofun

/-- The second request is stored first, and does not learn it. -/
def twoSteps : List (Action Bool Entry) :=
  [.check false, .check true, .insert true ⟨1, 0⟩, .insert false ⟨2, 0⟩, .fail true]

def plainHash (password : String) (_ : Nat) : Option String := some ("$2b$" ++ password)

def twoChecked : State Bool User := ((start []).setPhase false .absent).setPhase true .absent

def secondUser : User := ⟨1, "trader@example.com", "$2b$correct horse", true, "user"⟩

def twoEnd : State Bool User :=
  ((State.setPhase ⟨[secondUser], twoChecked.phase⟩ true .stored).setPhase false .duplicate).setPhase
    true .unconfirmed

theorem twoSteps_run :
    runFrom (registration plainHash id twoRequests).step (start []) twoSteps = some twoEnd :=
  rfl

theorem registered_once_of_two :
    (∀ user ∈ ([] : List User), user ∈ twoEnd.rows) ∧
      answer (twoEnd.phase true) = some (.error (.unhandled "Internal server error")) ∧
      ∃! winner, (∃ user, Created plainHash twoRequests twoEnd winner user) ∧
        id (twoRequests winner).email = id (twoRequests false).email := by
  obtain ⟨-, -, hkept, -, -, honce⟩ := registered_once (by simp) (by simp) twoSteps_run
  exact ⟨hkept, rfl, honce false (.error (.unhandled "IntegrityError")) rfl (by decide)
    (fun _ h => by cases h)⟩

/-! ### Who can log in -/

private theorem login_eq_ok {users : List User} {data : UserLogin} {id : Nat}
    (hemails : (users.map fun u => collate u.email).Nodup) :
    login verify collate users data = .ok id ↔ ∃ user ∈ users, user.id = id ∧
      collate user.email = collate data.email ∧ user.isActive = true ∧
      verify data.password user.hashedPassword = some true := by
  have hsingle : ∀ user ∈ users, collate user.email = collate data.email →
      users.filter (fun u => collate u.email = collate data.email) = [user] := by
    intro user huser hemail
    rw [← hemail]
    exact filter_of_unique hemails huser
  constructor
  · intro h
    cases hrows : users.filter fun u => collate u.email = collate data.email with
    | nil =>
        rw [login, hrows] at h
        cases h
    | cons user rest =>
        have hmem : user ∈ users ∧ collate user.email = collate data.email := by
          have := List.mem_filter.mp (hrows ▸ List.mem_cons_self : user ∈ users.filter _)
          exact ⟨this.1, of_decide_eq_true this.2⟩
        rw [login, hsingle user hmem.1 hmem.2] at h
        simp only [scalarOneOrNone] at h
        split at h
        · cases h
        · next hactive =>
          cases hverify : verify data.password user.hashedPassword with
          | none =>
              rw [hverify] at h
              cases h
          | some same =>
              cases same with
              | false =>
                  rw [hverify] at h
                  cases h
              | true =>
                  rw [hverify] at h
                  exact ⟨user, hmem.1, Except.ok.inj h, hmem.2, by simpa using hactive, hverify⟩
  · rintro ⟨user, huser, rfl, hemail, hactive, hverify⟩
    simp [login, hsingle user huser hemail, scalarOneOrNone, hactive, hverify]

/-- After any run of concurrent registrations a login is given a user exactly when a registration has
stored it, for the same email and a password that bcrypt does not tell from the one given. -/
theorem login_iff_registered (Same : String → String → Prop)
    (hverify : ∀ {password given salt hashed}, hash password salt = some hashed →
      (verify given hashed = some true ↔ Same given password))
    {s : State ι User} {actions : List (Action ι Entry)}
    (hrun : runFrom (registration hash collate requests).step (start []) actions = some s)
    (data : UserLogin) (id : Nat) :
    login verify collate s.rows data = .ok id ↔ ∃ request user, Created hash requests s request user ∧
      user.id = id ∧ collate (requests request).email = collate data.email ∧
      Same data.password (requests request).password := by
  have hkept := Scheme.Kept.run (by simp) hrun
  rw [login_eq_ok hkept.unique]
  constructor
  · rintro ⟨user, huser, hid, hemail, -, hpassword⟩
    rcases hkept.origin user huser with hold | ⟨request, entry, hstored, hbuild⟩
    · cases hold
    · obtain ⟨hsame, -, -, hhash⟩ := newUser_eq_some hash hbuild
      exact ⟨request, user, ⟨hstored, huser, entry, hbuild⟩, hid, hsame ▸ hemail,
        (hverify hhash).mp hpassword⟩
  · rintro ⟨request, user, ⟨-, huser, entry, hbuild⟩, hid, hemail, hpassword⟩
    obtain ⟨hsame, hactive, -, hhash⟩ := newUser_eq_some hash hbuild
    exact ⟨user, huser, hid, hsame ▸ hemail, hactive, (hverify hhash).mpr hpassword⟩

def plainVerify (given hashed : String) : Option Bool := some (decide ("$2b$" ++ given = hashed))

theorem login_of_two :
    login plainVerify id twoEnd.rows ⟨"trader@example.com", "correct horse"⟩ = .ok 1 := by
  refine (login_iff_registered Eq (fun {password given salt hashed} hhash => ?_)
    twoSteps_run _ 1).mpr ⟨true, secondUser, ⟨rfl, List.mem_cons_self, ⟨1, 0⟩, rfl⟩, rfl, rfl, rfl⟩
  cases hhash
  simp [plainVerify]

end

end SphereFx.Api.Users
