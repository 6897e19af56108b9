import SphereFx.Base.Check
import SphereFx.Base.Table
import SphereFx.Api.Models

/-!
# Licences

The `licenses` table with the queries of `routes/v1/license.py`, of the dependency
`require_valid_license` and of the middleware of the same name. The routes look at `is_active` only,
the other two also at the expiry.

The signed payload a key carries is a parameter, as is Python's `hash` of a text, which every process
seeds anew.
-/

namespace SphereFx.Api

structure License where
  id : Nat
  licenseKeyHash : Int
  userId : Nat
  features : Json
  expiresAt : Nat
  isActive : Bool

abbrev LicenseTable := Table License License.id

/-- The payload of a license key, with the default of `features`. -/
structure LicensePayload where
  userId : Json
  features : Json
  expiresAt : Nat

/-- The columns a handler sets on a new licence. The identity value comes with the insert. -/
structure LicenseDraft where
  licenseKeyHash : Int
  userId : Nat
  features : Json
  expiresAt : Nat

def LicenseDraft.row (draft : LicenseDraft) (id : Nat) : License where
  id := id
  licenseKeyHash := draft.licenseKeyHash
  userId := draft.userId
  features := draft.features
  expiresAt := draft.expiresAt
  isActive := true

/-- What the dependency raises: its own `LicenseError`, or an error of the query or the insert. -/
inductive LicenseFailure where
  | license (message : String)
  | other (err : ApiError)
  deriving DecidableEq, Repr

structure LicenseStatus where
  isActive : Bool
  features : List (String × Bool)
  expiresAt : Nat
  deriving DecidableEq, Repr

/-! ### Queries -/

/-- `License.user_id == user, License.is_active == True`. -/
def activeRows (table : LicenseTable) (user : Nat) : List License :=
  table.rows.filter fun row => row.userId = user ∧ row.isActive = true

/-- The same with `License.expires_at > datetime.utcnow()`. -/
def validRows (table : LicenseTable) (user now : Nat) : List License :=
  table.rows.filter fun row => row.userId = user ∧ row.isActive = true ∧ now < row.expiresAt

/-- The insert, under the primary key and the unique key hash. -/
def insertLicense (row : License) (table : LicenseTable) : Except ApiError LicenseTable :=
  if row.licenseKeyHash ∈ table.rows.map License.licenseKeyHash then
    .error (.unhandled "IntegrityError")
  else
    match table.insert? row with
    | none => .error (.unhandled "IntegrityError")
    | some table => .ok table

/-- The update of `deactivate_license`. -/
def switchOff (id : Nat) (table : LicenseTable) : LicenseTable :=
  table.update id (fun row => { row with isActive := false }) fun _ => rfl

/-! ### Responses -/

/-- A value pydantic takes for a `bool` field. -/
def laxBool : Json → Option Bool
  | .bool b => some b
  | .int n => if n = 0 then some false else if n = 1 then some true else none
  | .dec q => if q = 0 then some false else if q = 1 then some true else none
  | .str s =>
      if s.toLower ∈ ["0", "off", "f", "false", "n", "no"] then some false
      else if s.toLower ∈ ["1", "on", "t", "true", "y", "yes"] then some true
      else none
  | _ => none

/-- `Dict[str, bool]`, the type of `features` in the response. -/
def featureFlags : Json → Option (List (String × Bool))
  | .obj fields => fields.mapM fun field => (laxBool field.2).map (Prod.mk field.1)
  | _ => none

def statusOf (row : License) : Except ApiError LicenseStatus :=
  match featureFlags row.features with
  | none => .error (.unhandled "ValidationError")
  | some features => .ok ⟨row.isActive, features, row.expiresAt⟩

/-! ### The handlers -/

section Handlers

variable (payloadOf : String → Option LicensePayload) (hash : String → Int)

/-- `validate_license_key`: a signed payload that has not expired. -/
def validateLicenseKey (now : Nat) (key : String) : Option LicensePayload :=
  (payloadOf key).filter fun payload => ¬ payload.expiresAt < now

/-- The checks of `activate_license` on the key, and the row it is going to insert. -/
def activateDraft (now user : Nat) (key : String) : Except ApiError LicenseDraft := do
  match validateLicenseKey payloadOf now key with
  | none => .error (.validation "Invalid license key or signature" [])
  | some payload => do
      refuseIf (payload.userId.truthy = true ∧ payload.userId.pyNumber? ≠ some (user : ℚ))
        (.validation "License not assigned to this user" [])
      return ⟨hash key, user, payload.features, payload.expiresAt⟩

def alreadyActive : ApiError := .validation "License already active for this user" []

/-- The query of `activate_license` and its refusal. -/
def refuseActive (table : LicenseTable) (user : Nat) : Except ApiError Unit := do
  let existing ← scalarOneOrNone (activeRows table user)
  refuseIf (existing.isSome = true) alreadyActive

def activateLicense (now user : Nat) (key : String) (id : Nat) (table : LicenseTable) :
    Except ApiError LicenseStatus × LicenseTable :=
  let stored := do
    let draft ← activateDraft payloadOf hash now user key
    refuseActive table user
    let table ← insertLicense (draft.row id) table
    return (draft.row id, table)
  match stored with
  | .error err => (.error err, table)
  | .ok (row, table) => (statusOf row, table)

def getLicenseStatus (now user : Nat) (table : LicenseTable) : Except ApiError LicenseStatus := do
  match ← scalarOneOrNone (activeRows table user) with
  | none => return ⟨false, [], now⟩
  | some row => statusOf row

/-- The row `deactivate_license` loads. -/
def loadActive (user : Nat) (table : LicenseTable) : Except ApiError License := do
  orNotFound (← scalarOneOrNone (activeRows table user)) "No active license found for this user"

def deactivateLicense (user : Nat) (table : LicenseTable) : Except ApiError Unit × LicenseTable :=
  match loadActive user table with
  | .error err => (.error err, table)
  | .ok row => (.ok (), switchOff row.id table)

/-- The row `require_valid_license` creates from the `LICENSE_KEY` setting. -/
def settingDraft (setting : Option String) (now user : Nat) : Option LicenseDraft := do
  let key ← setting.filter (· ≠ "")
  let payload ← validateLicenseKey payloadOf now key
  if payload.userId.pyNumber? = some (user : ℚ) then
    return ⟨hash key, user, payload.features, payload.expiresAt⟩
  else none

def notLicensed : LicenseFailure := .license "Valid license not found or expired"

/-- `require_valid_license` of `dependencies.py`. -/
def requireValidLicense (setting : Option String) (now user id : Nat) (table : LicenseTable) :
    Except LicenseFailure License × LicenseTable :=
  match scalarOneOrNone (validRows table user now) with
  | .error err => (.error (.other err), table)
  | .ok (some row) => (.ok row, table)
  | .ok none =>
      match settingDraft payloadOf hash setting now user with
      | none => (.error notLicensed, table)
      | some draft =>
          match insertLicense (draft.row id) table with
          | .error err => (.error (.other err), table)
          | .ok table => (.ok (draft.row id), table)

/-- `require_valid_license` of the middleware, for an authenticated request. -/
def middlewareLicense (now user : Nat) (table : LicenseTable) : Except LicenseFailure License :=
  match scalarOneOrNone (validRows table user now) with
  | .error err => .error (.other err)
  | .ok none => .error notLicensed
  | .ok (some row) => .ok row

end Handlers

/-! ### What the queries see -/

theorem mem_activeRows {table : LicenseTable} {user : Nat} {row : License} :
    row ∈ activeRows table user ↔ row ∈ table.rows ∧ row.userId = user ∧ row.isActive = true := by
  simp only [activeRows, List.mem_filter, decide_eq_true_eq]

/-- The dependency's query is the routes' query with the expired rows left out. -/
theorem validRows_eq (table : LicenseTable) (user now : Nat) :
    validRows table user now =
      (activeRows table user).filter fun row => decide (now < row.expiresAt) := by
  simp only [validRows, activeRows, List.filter_filter, Bool.decide_and]
  congr 1
  funext row
  cases decide (row.userId = user) <;> cases decide (row.isActive = true) <;>
    cases decide (now < row.expiresAt) <;> rfl

theorem insertLicense_eq_ok {row : License} {table table' : LicenseTable} :
    insertLicense row table = .ok table' ↔
      row.licenseKeyHash ∉ table.rows.map License.licenseKeyHash ∧
        row.id ∉ table.rows.map License.id ∧ table'.rows = row :: table.rows := by
  unfold insertLicense
  by_cases hhash : row.licenseKeyHash ∈ table.rows.map License.licenseKeyHash
  · rw [if_pos hhash]
    exact ⟨fun h => (by cases h), fun h => absurd hhash h.1⟩
  · rw [if_neg hhash, and_iff_right hhash, ← Table.insert?_iff]
    cases table.insert? row with
    | none => exact ⟨fun h => (by cases h), fun h => (by cases h)⟩
    | some inserted =>
        exact ⟨fun h => congrArg some (Except.ok.inj h), fun h => congrArg Except.ok (Option.some.inj h)⟩

theorem exists_insertLicense (row : License) (table : LicenseTable)
    (hhash : row.licenseKeyHash ∉ table.rows.map License.licenseKeyHash)
    (hid : row.id ∉ table.rows.map License.id) :
    ∃ table', insertLicense row table = .ok table' ∧ table'.rows = row :: table.rows :=
  ⟨⟨row :: table.rows, List.nodup_cons.mpr ⟨hid, table.unique⟩⟩,
    insertLicense_eq_ok.mpr ⟨hhash, hid, rfl⟩, rfl⟩

theorem activeRows_insert {draft : LicenseDraft} {id : Nat} {table table' : LicenseTable}
    (h : table'.rows = draft.row id :: table.rows) (user : Nat) :
    activeRows table' user =
      if draft.userId = user then draft.row id :: activeRows table user
      else activeRows table user := by
  unfold activeRows
  rw [h, List.filter_cons]
  by_cases huser : draft.userId = user
  · rw [if_pos huser, if_pos (decide_eq_true ⟨huser, rfl⟩)]
  · have hrow : ¬ decide ((draft.row id).userId = user ∧ (draft.row id).isActive = true) = true :=
      fun hdecide => huser (of_decide_eq_true hdecide).1
    rw [if_neg huser, if_neg hrow]

/-- A deactivation leaves every user with some of the rows that were active. -/
theorem activeRows_switchOff (id : Nat) (table : LicenseTable) (user : Nat) :
    (activeRows (switchOff id table) user).Sublist (activeRows table user) := by
  have hrows : activeRows (switchOff id table) user =
      (activeRows table user).filter fun row => row.id ≠ id := by
    show ((table.rows.map fun row => if row.id = id then { row with isActive := false } else row)
      ).filter _ = _
    unfold activeRows
    induction table.rows with
    | nil => rfl
    | cons row rest ih =>
        rw [List.map_cons, List.filter_cons, List.filter_cons, ih]
        by_cases hid : row.id = id
        · by_cases hrow : row.userId = user ∧ row.isActive = true <;> simp [hid, hrow]
        · by_cases hrow : row.userId = user ∧ row.isActive = true <;> simp [hid, hrow]
  rw [hrows]
  exact List.filter_sublist

theorem scalarOneOrNone_of_le {α : Type} {rows : List α} (h : rows.length ≤ 1) :
    scalarOneOrNone rows = .ok rows.head? := by
  match rows, h with
  | [], _ => rfl
  | [row], _ => rfl

theorem scalarOneOrNone_eq_none {α : Type} {rows : List α} :
    scalarOneOrNone rows = .ok none ↔ rows = [] := by
  match rows with
  | [] => exact ⟨fun _ => rfl, fun _ => rfl⟩
  | [row] => exact ⟨fun h => (by cases h), fun h => (by cases h)⟩
  | _ :: _ :: _ => exact ⟨fun h => (by cases h), fun h => (by cases h)⟩

theorem scalarOneOrNone_eq_some {α : Type} {rows : List α} {row : α} :
    scalarOneOrNone rows = .ok (some row) ↔ rows = [row] := by
  match rows with
  | [] => exact ⟨fun h => (by cases h), fun h => (by cases h)⟩
  | [other] =>
      constructor
      · intro h
        rw [Option.some.inj (Except.ok.inj h)]
      · intro h
        rw [(List.cons.inj h).1]
        rfl
  | _ :: _ :: _ => exact ⟨fun h => (by cases h), fun h => (by cases h)⟩

theorem refuseActive_eq_ok {table : LicenseTable} {user : Nat} {u : Unit} :
    refuseActive table user = .ok u ↔ activeRows table user = [] := by
  unfold refuseActive
  rw [bind_eq_ok, ← scalarOneOrNone_eq_none]
  constructor
  · rintro ⟨existing, hquery, hrefuse⟩
    rw [hquery, Option.not_isSome_iff_eq_none.mp (refuseIf_eq_ok.mp hrefuse)]
  · exact fun hquery => ⟨none, hquery, rfl⟩

theorem userId_activateDraft {payloadOf : String → Option LicensePayload} {hash : String → Int}
    {now user : Nat} {key : String} {draft : LicenseDraft}
    (h : activateDraft payloadOf hash now user key = .ok draft) : draft.userId = user := by
  unfold activateDraft at h
  split at h
  · cases h
  · obtain ⟨u, -, hdraft⟩ := bind_eq_ok.mp h
    cases hdraft
    rfl

theorem userId_settingDraft {payloadOf : String → Option LicensePayload} {hash : String → Int}
    {setting : Option String} {now user : Nat} {draft : LicenseDraft}
    (h : settingDraft payloadOf hash setting now user = some draft) : draft.userId = user := by
  obtain ⟨key, -, h⟩ := Option.bind_eq_some_iff.mp h
  obtain ⟨payload, -, h⟩ := Option.bind_eq_some_iff.mp h
  split at h
  · exact congrArg LicenseDraft.userId (Option.some.inj h).symm
  · cases h

end SphereFx.Api
