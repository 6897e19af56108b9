import Mathlib.Logic.Function.Basic
import SphereFx.Base.Run
import SphereFx.Api.Licenses

/-!
# Licences under concurrent requests

Any number of activations, deactivations and licence checks run at once. Each request is validated,
queries the table and commits in separate steps, and the clock advances between any two of them. The
unique constraint is on the key hash, so nothing stops a second active row of one user.
-/

namespace SphereFx.Api

/-- How far a request has come. -/
inductive LicenseStage where
  | idle
  /-- `activate_license` has validated the key. -/
  | validated (draft : LicenseDraft)
  /-- The dependency has taken the time and sends its query. -/
  | checking (user asOf : Nat)
  /-- The query found no row, and the new one is about to be committed. -/
  | inserting (draft : LicenseDraft)
  /-- `deactivate_license` has loaded the row. -/
  | deactivating (id : Nat)

structure LicenseSystem where
  licenses : LicenseTable
  clock : Nat
  requests : Nat → LicenseStage

inductive LicenseEvent where
  | tick (elapsed : Nat)
  | activate (r user process : Nat) (key : String)
  | activateQuery (r : Nat)
  | require (r user : Nat)
  | requireQuery (r process : Nat)
  | deactivate (r user : Nat)
  | commit (r id : Nat) (applied : Bool)
  | drop (r : Nat)

namespace LicenseSystem

def initial : LicenseSystem := ⟨Table.empty, 0, fun _ => .idle⟩

def move (s : LicenseSystem) (r : Nat) (stage : LicenseStage) : LicenseSystem :=
  { s with requests := Function.update s.requests r stage }

def withLicenses (s : LicenseSystem) (licenses : LicenseTable) : LicenseSystem :=
  { s with licenses := licenses }

section Steps

variable (payloadOf : String → Option LicensePayload) (hash : Nat → String → Int)
variable (setting : Option String)

/-- The stage after the query of `activate_license`. -/
def afterActivateQuery (s : LicenseSystem) (draft : LicenseDraft) : LicenseStage :=
  match refuseActive s.licenses draft.userId with
  | .ok () => .inserting draft
  | .error _ => .idle

/-- The stage after the query of the dependency. -/
def afterRequireQuery (s : LicenseSystem) (process user asOf : Nat) : LicenseStage :=
  match scalarOneOrNone (validRows s.licenses user asOf) with
  | .ok none => (settingDraft payloadOf (hash process) setting s.clock user).elim .idle .inserting
  | _ => .idle

/-- The table after the commit of an insert. -/
def inserted (s : LicenseSystem) (draft : LicenseDraft) (id : Nat) (applied : Bool) :
    LicenseTable :=
  match insertLicense (draft.row id) s.licenses with
  | .ok licenses => if applied then licenses else s.licenses
  | .error _ => s.licenses

def step (s : LicenseSystem) : LicenseEvent → LicenseSystem
  | .tick elapsed => { s with clock := s.clock + elapsed }
  | .activate r user process key =>
      match s.requests r, activateDraft payloadOf (hash process) s.clock user key with
      | .idle, .ok draft => s.move r (.validated draft)
      | _, _ => s
  | .activateQuery r =>
      match s.requests r with
      | .validated draft => s.move r (s.afterActivateQuery draft)
      | _ => s
  | .require r user =>
      match s.requests r with
      | .idle => s.move r (.checking user s.clock)
      | _ => s
  | .requireQuery r process =>
      match s.requests r with
      | .checking user asOf =>
          s.move r (s.afterRequireQuery payloadOf hash setting process user asOf)
      | _ => s
  | .deactivate r user =>
      match s.requests r, loadActive user s.licenses with
      | .idle, .ok row => s.move r (.deactivating row.id)
      | _, _ => s
  | .commit r id applied =>
      match s.requests r with
      | .inserting draft => (s.move r .idle).withLicenses (s.inserted draft id applied)
      | .deactivating id =>
          (s.move r .idle).withLicenses (if applied then switchOff id s.licenses else s.licenses)
      | _ => s
  | .drop r => s.move r .idle

/-! ### What one step can do -/

variable {payloadOf hash setting}

/-- An insert that the database takes. -/
def InsertAt (s : LicenseSystem) (r id : Nat) (draft : LicenseDraft) : Prop :=
  s.requests r = .inserting draft ∧
    draft.licenseKeyHash ∉ s.licenses.rows.map License.licenseKeyHash ∧
    id ∉ s.licenses.rows.map License.id

private theorem rows_inserted {s : LicenseSystem} {draft : LicenseDraft} {id : Nat} {applied : Bool} :
    s.inserted draft id applied = s.licenses ∨
      applied = true ∧ draft.licenseKeyHash ∉ s.licenses.rows.map License.licenseKeyHash ∧
        id ∉ s.licenses.rows.map License.id ∧
        (s.inserted draft id applied).rows = draft.row id :: s.licenses.rows := by
  unfold inserted
  cases hinsert : insertLicense (draft.row id) s.licenses with
  | error err => exact Or.inl rfl
  | ok licenses =>
      obtain ⟨hhash, hid, hrows⟩ := insertLicense_eq_ok.mp hinsert
      cases applied with
      | false => exact Or.inl rfl
      | true => exact Or.inr ⟨rfl, hhash, hid, hrows⟩

/-- The table after a step: as before, with a row switched off, or with a row of an insert that was
due. -/
theorem licenses_step (s : LicenseSystem) (event : LicenseEvent) :
    (s.step payloadOf hash setting event).licenses = s.licenses ∨
      (∃ id, (s.step payloadOf hash setting event).licenses = switchOff id s.licenses) ∨
      ∃ r id draft, event = .commit r id true ∧ s.InsertAt r id draft ∧
        (s.step payloadOf hash setting event).licenses.rows = draft.row id :: s.licenses.rows := by
  cases event with
  | tick elapsed => exact Or.inl rfl
  | activate r user process key =>
      simp only [step]
      split <;> exact Or.inl rfl
  | activateQuery r =>
      simp only [step]
      split <;> exact Or.inl rfl
  | require r user =>
      simp only [step]
      split <;> exact Or.inl rfl
  | requireQuery r process =>
      simp only [step]
      split <;> exact Or.inl rfl
  | deactivate r user =>
      simp only [step]
      split <;> exact Or.inl rfl
  | commit r id applied =>
      simp only [step]
      split
      · rename_i draft hstage
        rcases @rows_inserted s draft id applied with hsame | ⟨rfl, hhash, hid, hrows⟩
        · exact Or.inl hsame
        · exact Or.inr (Or.inr ⟨r, id, draft, rfl, ⟨hstage, hhash, hid⟩, hrows⟩)
      · rename_i row _
        cases applied with
        | false => exact Or.inl rfl
        | true => exact Or.inr (Or.inl ⟨row, rfl⟩)
      · exact Or.inl rfl
  | drop r => exact Or.inl rfl

/-- An insert that the database takes is made. -/
theorem licenses_insertAt {s : LicenseSystem} {r id : Nat} {draft : LicenseDraft}
    (h : s.InsertAt r id draft) :
    (s.step payloadOf hash setting (.commit r id true)).licenses.rows =
      draft.row id :: s.licenses.rows := by
  obtain ⟨hstage, hhash, hid⟩ := h
  have hinsert : ∃ licenses, insertLicense (draft.row id) s.licenses = .ok licenses ∧
      licenses.rows = draft.row id :: s.licenses.rows :=
    ⟨⟨draft.row id :: s.licenses.rows, List.nodup_cons.mpr ⟨hid, s.licenses.unique⟩⟩,
      insertLicense_eq_ok.mpr ⟨hhash, hid, rfl⟩, rfl⟩
  obtain ⟨licenses, hok, hrows⟩ := hinsert
  simp only [step, hstage]
  show (s.inserted draft id true).rows = _
  simp only [inserted, hok, if_true]
  exact hrows

theorem requests_move (s : LicenseSystem) (r other : Nat) (stage : LicenseStage) :
    (s.move r stage).requests other = if other = r then stage else s.requests other := by
  show Function.update s.requests r stage other = _
  rw [Function.update_apply]

theorem requests_move_self (s : LicenseSystem) (r : Nat) (stage : LicenseStage) :
    (s.move r stage).requests r = stage := by
  rw [requests_move, if_pos rfl]

private theorem afterActivateQuery_eq {s : LicenseSystem} {draft draft' : LicenseDraft}
    (h : s.afterActivateQuery draft' = .inserting draft) :
    activeRows s.licenses draft.userId = [] := by
  unfold afterActivateQuery at h
  split at h
  · rename_i hok
    cases h
    exact refuseActive_eq_ok.mp hok
  · cases h

private theorem afterRequireQuery_eq {s : LicenseSystem} {process user asOf : Nat} {draft : LicenseDraft}
    (h : s.afterRequireQuery payloadOf hash setting process user asOf = .inserting draft) :
    draft.userId = user ∧ validRows s.licenses user asOf = [] := by
  unfold afterRequireQuery at h
  split at h
  · rename_i hquery
    cases hdraft : settingDraft payloadOf (hash process) setting s.clock user with
    | none =>
        rw [hdraft] at h
        cases h
    | some found =>
        rw [hdraft] at h
        cases h
        exact ⟨userId_settingDraft hdraft, scalarOneOrNone_eq_none.mp hquery⟩
  · cases h

/-- What a step does to one request: nothing, or one of the moves of its handler. -/
theorem requests_step (s : LicenseSystem) (event : LicenseEvent) (r : Nat) :
    ((s.step payloadOf hash setting event).requests r = s.requests r ∧
        ∀ draft, s.requests r = .inserting draft → ∀ id applied, event ≠ .commit r id applied) ∨
      (s.step payloadOf hash setting event).requests r = .idle ∨
      (∃ user process key draft, event = .activate r user process key ∧
        activateDraft payloadOf (hash process) s.clock user key = .ok draft ∧
        (s.step payloadOf hash setting event).requests r = .validated draft) ∨
      (∃ draft, event = .activateQuery r ∧ s.requests r = .validated draft ∧
        (s.step payloadOf hash setting event).requests r = s.afterActivateQuery draft) ∨
      (∃ user, (s.step payloadOf hash setting event).requests r = .checking user s.clock) ∨
      (∃ process user asOf, event = .requireQuery r process ∧ s.requests r = .checking user asOf ∧
        (s.step payloadOf hash setting event).requests r =
          s.afterRequireQuery payloadOf hash setting process user asOf) ∨
      ∃ id, (s.step payloadOf hash setting event).requests r = .deactivating id := by
  -- A step moves one request, the one its event names.
  have hmove : ∀ {other stage}, r ≠ other → (s.move other stage).requests r = s.requests r := by
    intro other stage hne
    rw [requests_move, if_neg hne]
  cases event with
  | tick elapsed => exact Or.inl ⟨rfl, nofun⟩
  | activate other user process key =>
      simp only [step]
      split
      · rename_i draft _ hdraft
        by_cases hr : r = other
        · subst hr
          exact Or.inr (Or.inr (Or.inl ⟨user, process, key, draft, rfl, hdraft,
            requests_move_self s r _⟩))
        · exact Or.inl ⟨hmove hr, nofun⟩
      · exact Or.inl ⟨rfl, nofun⟩
  | activateQuery other =>
      simp only [step]
      split
      · rename_i draft hstage
        by_cases hr : r = other
        · subst hr
          exact Or.inr (Or.inr (Or.inr (Or.inl ⟨draft, rfl, hstage, requests_move_self s r _⟩)))
        · exact Or.inl ⟨hmove hr, nofun⟩
      · exact Or.inl ⟨rfl, nofun⟩
  | require other user =>
      simp only [step]
      split
      · by_cases hr : r = other
        · subst hr
          exact Or.inr (Or.inr (Or.inr (Or.inr (Or.inl ⟨user, requests_move_self s r _⟩))))
        · exact Or.inl ⟨hmove hr, nofun⟩
      · exact Or.inl ⟨rfl, nofun⟩
  | requireQuery other process =>
      simp only [step]
      split
      · rename_i user asOf hstage
        by_cases hr : r = other
        · subst hr
          exact Or.inr (Or.inr (Or.inr (Or.inr (Or.inr (Or.inl ⟨process, user, asOf, rfl, hstage,
            requests_move_self s r _⟩)))))
        · exact Or.inl ⟨hmove hr, nofun⟩
      · exact Or.inl ⟨rfl, nofun⟩
  | deactivate other user =>
      simp only [step]
      split
      · rename_i row _ _
        by_cases hr : r = other
        · subst hr
          exact Or.inr (Or.inr (Or.inr (Or.inr (Or.inr (Or.inr ⟨row.id,
            requests_move_self s r _⟩)))))
        · exact Or.inl ⟨hmove hr, nofun⟩
      · exact Or.inl ⟨rfl, nofun⟩
  | commit other id applied =>
      simp only [step]
      split
      · by_cases hr : r = other
        · subst hr
          exact Or.inr (Or.inl (requests_move_self s r _))
        · exact Or.inl ⟨hmove hr, fun _ _ _ _ heq => hr (LicenseEvent.commit.inj heq).1.symm⟩
      · by_cases hr : r = other
        · subst hr
          exact Or.inr (Or.inl (requests_move_self s r _))
        · exact Or.inl ⟨hmove hr, fun _ _ _ _ heq => hr (LicenseEvent.commit.inj heq).1.symm⟩
      · rename_i hnot _
        refine Or.inl ⟨rfl, fun draft hdue _ _ heq => ?_⟩
        obtain ⟨rfl, -⟩ := LicenseEvent.commit.inj heq
        exact hnot draft hdue
  | drop other =>
      by_cases hr : r = other
      · subst hr
        exact Or.inr (Or.inl (requests_move_self s r _))
      · exact Or.inl ⟨hmove hr, nofun⟩

/-- How a request comes to have an insert due. -/
theorem inserting_step {s : LicenseSystem} {event : LicenseEvent} {r : Nat} {draft : LicenseDraft}
    (h : (s.step payloadOf hash setting event).requests r = .inserting draft) :
    (s.requests r = .inserting draft ∧ ∀ id applied, event ≠ .commit r id applied) ∨
      (event = .activateQuery r ∧ activeRows s.licenses draft.userId = []) ∨
      ∃ process asOf, event = .requireQuery r process ∧
        s.requests r = .checking draft.userId asOf ∧
        validRows s.licenses draft.userId asOf = [] := by
  rcases @requests_step payloadOf hash setting s event r with ⟨hkept, hnot⟩ | hidle |
    ⟨_, _, _, _, -, -, hvalidated⟩ | ⟨_, hevent, -, hqueried⟩ | ⟨_, hchecking⟩ |
    ⟨process, user, asOf, hevent, hstage, hqueried⟩ | ⟨_, hdeactivating⟩
  · have hbefore := hkept.symm.trans h
    exact Or.inl ⟨hbefore, hnot draft hbefore⟩
  · cases hidle.symm.trans h
  · cases hvalidated.symm.trans h
  · exact Or.inr (Or.inl ⟨hevent, afterActivateQuery_eq (hqueried.symm.trans h)⟩)
  · cases hchecking.symm.trans h
  · obtain ⟨huser, hvalid⟩ := afterRequireQuery_eq (hqueried.symm.trans h)
    subst huser
    exact Or.inr (Or.inr ⟨process, asOf, hevent, hstage, hvalid⟩)
  · cases hdeactivating.symm.trans h

/-! ### A request on its own

Steps that nothing interleaves leave the table the handler leaves.
-/

theorem commit_of_idle {s : LicenseSystem} {r : Nat} (hidle : s.requests r = .idle) (id : Nat)
    (applied : Bool) : s.step payloadOf hash setting (.commit r id applied) = s := by
  simp only [step, hidle]

theorem licenses_commit (s : LicenseSystem) (r id : Nat) (draft : LicenseDraft) :
    ((s.move r (.inserting draft)).step payloadOf hash setting (.commit r id true)).licenses =
      s.inserted draft id true := by
  simp only [step, requests_move_self]
  rfl

/-- An activation that nothing refuses, with no other request in between. -/
theorem foldl_activate {s : LicenseSystem} {r user process id : Nat} {key : String}
    {draft : LicenseDraft} {table : LicenseTable} (hidle : s.requests r = .idle)
    (hdraft : activateDraft payloadOf (hash process) s.clock user key = .ok draft)
    (hnone : activeRows s.licenses user = [])
    (hinsert : insertLicense (draft.row id) s.licenses = .ok table) :
    [.activate r user process key, .activateQuery r, .commit r id true].foldl
        (step payloadOf hash setting) s =
      (((s.move r (.validated draft)).move r (.inserting draft)).move r .idle).withLicenses table := by
  have hactivate : s.step payloadOf hash setting (.activate r user process key) =
      s.move r (.validated draft) := by
    simp only [step, hidle, hdraft]
  have hstage : (s.move r (.validated draft)).afterActivateQuery draft = .inserting draft := by
    have hrefuse : refuseActive s.licenses user = .ok () := refuseActive_eq_ok.mpr hnone
    rw [afterActivateQuery, userId_activateDraft hdraft]
    show (match refuseActive s.licenses user with | .ok () => _ | .error _ => _) = _
    rw [hrefuse]
  have hquery : (s.move r (.validated draft)).step payloadOf hash setting (.activateQuery r) =
      (s.move r (.validated draft)).move r (.inserting draft) := by
    simp only [step, requests_move_self, hstage]
  have hinserted : ((s.move r (.validated draft)).move r (.inserting draft)).inserted draft id true =
      table := by
    show (match insertLicense (draft.row id) s.licenses with | .ok licenses => _ | .error _ => _) = _
    rw [hinsert]
    rfl
  simp only [List.foldl_cons, List.foldl_nil]
  rw [hactivate, hquery]
  simp only [step, requests_move_self, hinserted]

theorem activate_alone {s : LicenseSystem} {r : Nat} (hidle : s.requests r = .idle)
    (user process id : Nat) (key : String) :
    ([.activate r user process key, .activateQuery r, .commit r id true].foldl
        (step payloadOf hash setting) s).licenses =
      (activateLicense payloadOf (hash process) s.clock user key id s.licenses).2 := by
  simp only [List.foldl_cons, List.foldl_nil]
  cases hdraft : activateDraft payloadOf (hash process) s.clock user key with
  | error err =>
      have hstep : s.step payloadOf hash setting (.activate r user process key) = s := by
        simp only [step, hidle, hdraft]
      have hquery : s.step payloadOf hash setting (.activateQuery r) = s := by
        simp only [step, hidle]
      rw [hstep, hquery, commit_of_idle hidle, activateLicense, hdraft]
      rfl
  | ok draft =>
      have huser : draft.userId = user := userId_activateDraft hdraft
      have hstep : s.step payloadOf hash setting (.activate r user process key) =
          s.move r (.validated draft) := by
        simp only [step, hidle, hdraft]
      have hquery : (s.move r (.validated draft)).step payloadOf hash setting (.activateQuery r) =
          (s.move r (.validated draft)).move r (s.afterActivateQuery draft) := by
        simp only [step, requests_move_self]
        rfl
      rw [hstep, hquery, activateLicense, hdraft]
      cases hrefuse : refuseActive s.licenses user with
      | error err =>
          have hstage : s.afterActivateQuery draft = .idle := by
            rw [afterActivateQuery, huser, hrefuse]
          rw [hstage, commit_of_idle (requests_move_self _ r _)]
          rfl
      | ok u =>
          have hstage : s.afterActivateQuery draft = .inserting draft := by
            rw [afterActivateQuery, huser, hrefuse]
          rw [hstage, licenses_commit]
          show inserted s draft id true = _
          simp only [inserted, bind, Except.bind]
          cases insertLicense (draft.row id) s.licenses <;> rfl

theorem deactivate_alone {s : LicenseSystem} {r : Nat} (hidle : s.requests r = .idle)
    (user id : Nat) :
    ([.deactivate r user, .commit r id true].foldl (step payloadOf hash setting) s).licenses =
      (deactivateLicense user s.licenses).2 := by
  simp only [List.foldl_cons, List.foldl_nil, deactivateLicense]
  cases hload : loadActive user s.licenses with
  | error err =>
      have hstep : s.step payloadOf hash setting (.deactivate r user) = s := by
        simp only [step, hidle, hload]
      rw [hstep, commit_of_idle hidle]
  | ok row =>
      have hstep : s.step payloadOf hash setting (.deactivate r user) =
          s.move r (.deactivating row.id) := by
        simp only [step, hidle, hload]
      rw [hstep]
      simp only [step, requests_move_self]
      rfl

theorem require_alone {s : LicenseSystem} {r : Nat} (hidle : s.requests r = .idle)
    (user process id : Nat) :
    ([.require r user, .requireQuery r process, .commit r id true].foldl
        (step payloadOf hash setting) s).licenses =
      (requireValidLicense payloadOf (hash process) setting s.clock user id s.licenses).2 := by
  have hstep : s.step payloadOf hash setting (.require r user) =
      s.move r (.checking user s.clock) := by
    simp only [step, hidle]
  have hquery : (s.move r (.checking user s.clock)).step payloadOf hash setting
      (.requireQuery r process) = (s.move r (.checking user s.clock)).move r
        (s.afterRequireQuery payloadOf hash setting process user s.clock) := by
    simp only [step, requests_move_self]
    rfl
  simp only [List.foldl_cons, List.foldl_nil, hstep, hquery, requireValidLicense]
  unfold afterRequireQuery
  cases scalarOneOrNone (validRows s.licenses user s.clock) with
  | error err =>
      rw [commit_of_idle (requests_move_self _ r _)]
      rfl
  | ok found =>
      cases found with
      | some row =>
          rw [commit_of_idle (requests_move_self _ r _)]
          rfl
      | none =>
          cases settingDraft payloadOf (hash process) setting s.clock user with
          | none =>
              simp only [Option.elim_none]
              rw [commit_of_idle (requests_move_self _ r _)]
              rfl
          | some draft =>
              simp only [Option.elim_some]
              rw [licenses_commit]
              show inserted s draft id true = _
              unfold inserted
              cases insertLicense (draft.row id) s.licenses <;> rfl

/-! ### One active row a user -/

def AtMostOne (s : LicenseSystem) : Prop := ∀ user, (activeRows s.licenses user).length ≤ 1

/-- No user has two active rows, so none of the queries raises. -/
structure OneActive (s : LicenseSystem) : Prop where
  atMostOne : s.AtMostOne
  activeQuery : ∀ user, ∃ row, scalarOneOrNone (activeRows s.licenses user) = .ok row
  validQuery : ∀ user now, ∃ row, scalarOneOrNone (validRows s.licenses user now) = .ok row

theorem AtMostOne.oneActive {s : LicenseSystem} (h : s.AtMostOne) : s.OneActive where
  atMostOne := h
  activeQuery user := ⟨_, scalarOneOrNone_of_le (h user)⟩
  validQuery user now := by
    refine ⟨_, scalarOneOrNone_of_le (Nat.le_trans ?_ (h user))⟩
    rw [validRows_eq]
    exact List.length_filter_le _ _

/-- No insert is committed while its user has an active row. -/
def InsertsFree (s : LicenseSystem) : LicenseEvent → Prop
  | .commit r id true => ∀ draft, s.InsertAt r id draft → activeRows s.licenses draft.userId = []
  | _ => True

/-- No insert is committed while another one of the same user is due, and the dependency finds no
expired row that is still active. -/
def Serial (s : LicenseSystem) : LicenseEvent → Prop
  | .commit r _ _ => ∀ draft other due, s.requests r = .inserting draft →
      s.requests other = .inserting due → due.userId = draft.userId → other = r
  | .requireQuery r _ => ∀ user asOf, s.requests r = .checking user asOf →
      ∀ row ∈ activeRows s.licenses user, asOf < row.expiresAt
  | _ => True

theorem atMostOne_step {s : LicenseSystem} {event : LicenseEvent} (h : s.AtMostOne)
    (hfree : s.InsertsFree event) : (s.step payloadOf hash setting event).AtMostOne := by
  intro user
  rcases @licenses_step payloadOf hash setting s event with
    hsame | ⟨id, hoff⟩ | ⟨r, id, draft, rfl, hinsert, hrows⟩
  · rw [hsame]
    exact h user
  · rw [hoff]
    exact Nat.le_trans (activeRows_switchOff id s.licenses user).length_le (h user)
  · rw [activeRows_insert hrows]
    split
    · rename_i huser
      rw [← huser, hfree draft hinsert]
      exact Nat.le_refl 1
    · exact h user

private theorem insertsFree_of_atMostOne {s : LicenseSystem} {event : LicenseEvent}
    (h : (s.step payloadOf hash setting event).OneActive) : s.InsertsFree event := by
  match event with
  | .commit r id true =>
      intro draft hinsert
      have hone := h.atMostOne draft.userId
      rw [activeRows_insert (licenses_insertAt hinsert), if_pos rfl, List.length_cons] at hone
      exact List.length_eq_zero_iff.mp (by omega)
  | .commit _ _ false => exact trivial
  | .tick _ => exact trivial
  | .activate .. => exact trivial
  | .activateQuery _ => exact trivial
  | .require .. => exact trivial
  | .requireQuery .. => exact trivial
  | .deactivate .. => exact trivial
  | .drop _ => exact trivial

/-- The invariant of a serial run: while an insert is due, its user has no active row. -/
def DueAlone (s : LicenseSystem) : Prop :=
  s.AtMostOne ∧ ∀ r draft, s.requests r = .inserting draft → activeRows s.licenses draft.userId = []

private theorem insertsFree_of_dueAlone {s : LicenseSystem} (h : s.DueAlone) (event : LicenseEvent) :
    s.InsertsFree event := by
  unfold InsertsFree
  split
  · exact fun draft hinsert => h.2 _ draft hinsert.1
  · exact trivial

private theorem dueAlone_step {s : LicenseSystem} {event : LicenseEvent} (h : s.DueAlone)
    (hserial : s.Serial event) : (s.step payloadOf hash setting event).DueAlone := by
  refine ⟨atMostOne_step h.1 (insertsFree_of_dueAlone h event), fun r draft hdue => ?_⟩
  have hbefore : activeRows s.licenses draft.userId = [] := by
    rcases inserting_step hdue with ⟨hstage, -⟩ | ⟨-, hactive⟩ | ⟨process, asOf, rfl, hstage, hvalid⟩
    · exact h.2 r draft hstage
    · exact hactive
    · refine List.eq_nil_iff_forall_not_mem.mpr fun row hrow => ?_
      have hmem : row ∈ validRows s.licenses draft.userId asOf := by
        rw [validRows_eq]
        exact List.mem_filter.mpr ⟨hrow, decide_eq_true (hserial _ asOf hstage row hrow)⟩
      exact absurd (hvalid ▸ hmem) List.not_mem_nil
  rcases @licenses_step payloadOf hash setting s event with
    hsame | ⟨id, hoff⟩ | ⟨other, id, inserted, rfl, hinsert, hrows⟩
  · rw [hsame]
    exact hbefore
  · rw [hoff]
    exact List.sublist_nil.mp (hbefore ▸ activeRows_switchOff id s.licenses draft.userId)
  · rw [activeRows_insert hrows]
    split
    · rename_i huser
      rcases inserting_step hdue with ⟨hstage, hother⟩ | ⟨heq, -⟩ | ⟨_, _, heq, -⟩
      · have hsame := hserial inserted r draft hinsert.1 hstage huser.symm
        exact absurd (congrArg (LicenseEvent.commit · id true) hsame.symm) (hother id true)
      · cases heq
      · cases heq
    · exact hbefore

/-- In every state of a run each user has at most one active licence exactly when every insert is
made for a user without one. A serial run is such a run. -/
theorem one_active_iff (payloadOf : String → Option LicensePayload) (hash : Nat → String → Int)
    (setting : Option String) (events : List LicenseEvent) :
    ((∀ s ∈ visited (step payloadOf hash setting) initial events, s.OneActive) ↔
      Along (step payloadOf hash setting) InsertsFree initial events) ∧
    (Along (step payloadOf hash setting) Serial initial events →
      ∀ s ∈ visited (step payloadOf hash setting) initial events, s.OneActive) := by
  have hempty : initial.AtMostOne := fun _ => Nat.zero_le 1
  refine ⟨⟨fun h => ?_, fun h s hs => ?_⟩, fun h s hs => ?_⟩
  · exact @along_of_visited _ _ _ InsertsFree OneActive (fun _ => True) (fun _ => trivial)
      (fun _ _ hnext => insertsFree_of_atMostOne hnext) _ _ trivial h
  · exact (visited_of_along atMostOne_step hempty h s hs).oneActive
  · have hdue : initial.DueAlone := ⟨hempty, nofun⟩
    exact (visited_of_along dueAlone_step hdue h s hs).1.oneActive

end Steps

end LicenseSystem

/-! ### Two ways to a second active row -/

/-- A key of user 1 that expires after ten seconds. -/
def keyTen : String :=
  "WgJx6ctTVmZYRU_VkXh21hI9l8Ki4Q1vLY5-5DP4rbGzbhp5Wt4TERdFQTpOd_plCeN9tjsy1uz-YhKGOHzNAg" ++
    ".eyJ1c2VyX2lkIjoxLCJleHBpcmVzX2F0IjoiMTk3MC0wMS0wMVQwMDowMDoxMCJ9"

/-- A key of user 1 that expires after a hundred seconds. -/
def keyHundred : String :=
  "JShqy6oC5HXZKmCOmh4Y9qEayomPxlE6rcdbiOJZoNCruEtqQdor3IR4fr7H61ry7M-cXiqoTdITcqWNkxIUAQ" ++
    ".eyJ1c2VyX2lkIjoxLCJleHBpcmVzX2F0IjoiMTk3MC0wMS0wMVQwMDowMTo0MCJ9"

def twoKeys (key : String) : Option LicensePayload :=
  if key = keyTen then some ⟨.int 1, .obj [], 10⟩
  else if key = keyHundred then some ⟨.int 1, .obj [], 100⟩
  else none

def twoHashes (_process : Nat) (key : String) : Int := if key = keyTen then -57 else 92

/-- The licence expires, and the dependency creates another one from the setting. -/
def expiredThenChecked : List LicenseEvent :=
  [.activate 0 1 0 keyTen, .activateQuery 0, .commit 0 1 true, .tick 20, .require 1 1,
    .requireQuery 1 0, .commit 1 2 true]

/-- Two activations at once, each with a key of its own. -/
def activatedTwice : List LicenseEvent :=
  [.activate 0 1 0 keyTen, .activate 1 1 0 keyHundred, .activateQuery 0, .activateQuery 1,
    .commit 0 1 true, .commit 1 2 true]

/-- Both runs leave user 1 with two active rows, and the routes' query raises. -/
theorem second_active_row :
    let expired := expiredThenChecked.foldl
      (LicenseSystem.step twoKeys twoHashes (some keyHundred)) .initial
    let twice := activatedTwice.foldl (LicenseSystem.step twoKeys twoHashes none) .initial
    (activeRows expired.licenses 1).length = 2 ∧ (activeRows twice.licenses 1).length = 2 ∧
      (loadActive 1 expired.licenses).toOption.isNone = true := by
  decide +kernel

end SphereFx.Api
