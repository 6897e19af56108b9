import SphereFx.Api.LicenseRuns

/-!
# Who is licensed

Three answers to one question, with no `LICENSE_KEY` configured: the dependency passes, the status
route reports an active licence, and an activation is refused because there is one. They are decided
by different queries, and the status has a response type that not every licence fits.
-/

namespace SphereFx.Api

section Answers

variable (payloadOf : String → Option LicensePayload) (hash : String → Int)

def DependencyPasses (now user id : Nat) (table : LicenseTable) : Prop :=
  ∃ row, (requireValidLicense payloadOf hash none now user id table).1 = .ok row

def ReportsActive (now user : Nat) (table : LicenseTable) : Prop :=
  ∃ status, getLicenseStatus now user table = .ok status ∧ status.isActive = true

def RefusedAsActive (now user : Nat) (key : String) (id : Nat) (table : LicenseTable) : Prop :=
  (activateLicense payloadOf hash now user key id table).1 = .error alreadyActive

/-- The three answers are the same. -/
def Coincide (now user : Nat) (key : String) (id : Nat) (table : LicenseTable) : Prop :=
  (DependencyPasses payloadOf hash now user id table ↔ ReportsActive now user table) ∧
    (ReportsActive now user table ↔ RefusedAsActive payloadOf hash now user key id table)

end Answers

/-- A single active row is unexpired and fits the response, and of several active rows the number of
unexpired ones is not one. -/
def ConsistentRows (now user : Nat) (table : LicenseTable) : Prop :=
  (∀ row ∈ activeRows table user, (activeRows table user).length = 1 →
    now < row.expiresAt ∧ (featureFlags row.features).isSome = true) ∧
  (1 < (activeRows table user).length → (validRows table user now).length ≠ 1)

instance (now user : Nat) (table : LicenseTable) : Decidable (ConsistentRows now user table) :=
  inferInstanceAs (Decidable (_ ∧ _))

/-! ### Each answer by the rows -/

section Rows

variable {payloadOf : String → Option LicensePayload} {hash : String → Int}
variable {now user id : Nat} {table : LicenseTable}

theorem requireValidLicense_none :
    (requireValidLicense payloadOf hash none now user id table).1 =
      middlewareLicense now user table := by
  unfold requireValidLicense middlewareLicense
  split
  · rename_i hquery
    rw [hquery]
  · rename_i hquery
    rw [hquery]
  · rename_i hquery
    rw [hquery]
    rfl

private theorem dependencyPasses_iff : DependencyPasses payloadOf hash now user id table ↔
    (validRows table user now).length = 1 := by
  unfold DependencyPasses
  rw [requireValidLicense_none, List.length_eq_one_iff]
  unfold middlewareLicense
  constructor
  · rintro ⟨row, hrow⟩
    split at hrow
    · cases hrow
    · cases hrow
    · rename_i found hquery
      exact ⟨found, scalarOneOrNone_eq_some.mp hquery⟩
  · rintro ⟨row, hvalid⟩
    exact ⟨row, by rw [hvalid]; rfl⟩

private theorem statusOf_eq_ok {row : License} (hactive : row.isActive = true) :
    (∃ status, statusOf row = .ok status ∧ status.isActive = true) ↔
      (featureFlags row.features).isSome = true := by
  unfold statusOf
  cases featureFlags row.features with
  | none => exact ⟨fun ⟨_, h, _⟩ => (by cases h), fun h => (by cases h)⟩
  | some features => exact ⟨fun _ => rfl, fun _ => ⟨_, rfl, hactive⟩⟩

private theorem reportsActive_iff : ReportsActive now user table ↔
    ∃ row, activeRows table user = [row] ∧ (featureFlags row.features).isSome = true := by
  unfold ReportsActive getLicenseStatus
  match hrows : activeRows table user with
  | [] =>
      refine ⟨fun ⟨status, hok, hactive⟩ => ?_, fun ⟨row, hrow, _⟩ => (by cases hrow)⟩
      obtain rfl := Except.ok.inj hok
      cases hactive
  | [row] =>
      have hactive : row.isActive = true :=
        (mem_activeRows.mp (hrows ▸ List.mem_singleton_self row)).2.2
      refine (statusOf_eq_ok hactive).trans ⟨fun h => ⟨row, rfl, h⟩, ?_⟩
      rintro ⟨other, hother, h⟩
      rw [(List.cons.inj hother).1]
      exact h
  | _ :: _ :: _ => exact ⟨fun ⟨_, h, _⟩ => (by cases h), fun ⟨_, h, _⟩ => (by cases h)⟩

private theorem insertLicense_ne {row : License} : insertLicense row table ≠ .error alreadyActive := by
  unfold insertLicense
  split
  · exact fun h => (by cases h)
  · split
    · exact fun h => (by cases h)
    · exact fun h => (by cases h)

private theorem statusOf_ne {row : License} : statusOf row ≠ .error alreadyActive := by
  unfold statusOf
  split
  · exact fun h => (by cases h)
  · exact fun h => (by cases h)

private theorem refusedAsActive_iff {key : String} {draft : LicenseDraft}
    (hkey : activateDraft payloadOf hash now user key = .ok draft) :
    RefusedAsActive payloadOf hash now user key id table ↔
      (activeRows table user).length = 1 := by
  unfold RefusedAsActive activateLicense refuseActive
  rw [hkey]
  match hrows : activeRows table user with
  | [] =>
      refine ⟨fun h => ?_, fun h => (by cases h)⟩
      have hfree : refuseIf ((none : Option License).isSome = true) alreadyActive = .ok () := rfl
      simp only [bind, Except.bind, scalarOneOrNone, hfree] at h
      -- Neither the insert nor the response can raise this error.
      cases hinsert : insertLicense (draft.row id) table with
      | error err =>
          rw [hinsert] at h
          have herr : err = alreadyActive := Except.error.inj h
          exact absurd (herr ▸ hinsert) insertLicense_ne
      | ok table' =>
          rw [hinsert] at h
          exact absurd h statusOf_ne
  | [row] => exact ⟨fun _ => rfl, fun _ => rfl⟩
  | _ :: _ :: rest => exact ⟨fun h => (by cases h), fun h => (by cases h)⟩

/-- The answers coincide exactly on a consistent table. -/
theorem coincide_iff {key : String} {draft : LicenseDraft}
    (hkey : activateDraft payloadOf hash now user key = .ok draft) :
    Coincide payloadOf hash now user key id table ↔ ConsistentRows now user table := by
  unfold Coincide ConsistentRows
  rw [dependencyPasses_iff, reportsActive_iff, refusedAsActive_iff hkey, validRows_eq]
  match activeRows table user with
  | [] => simp
  | [row] =>
      have hreports : (∃ other, [row] = [other] ∧ (featureFlags other.features).isSome = true) ↔
          (featureFlags row.features).isSome = true :=
        ⟨fun ⟨other, h, hsome⟩ => (List.cons.inj h).1 ▸ hsome, fun h => ⟨row, rfl, h⟩⟩
      rw [hreports]
      by_cases hexpiry : now < row.expiresAt <;> simp [hexpiry]
  | first :: second :: rest =>
      have hreports : ¬ ∃ other, first :: second :: rest = [other] ∧
          (featureFlags other.features).isSome = true := fun ⟨_, h, _⟩ => (by cases h)
      have hrefused : ¬ (first :: second :: rest).length = 1 := by simp
      have hseveral : 1 < (first :: second :: rest).length := by simp
      simp only [hreports, hrefused, hseveral, iff_false, and_true, false_implies, implies_true,
        true_and, true_implies, ne_eq]

end Rows

/-! ### Along a run -/

namespace LicenseSystem

/-- The clock does not pass the expiry of an active row, and an insert is made for a user without
one, before its expiry and with features the response can show. -/
def Kept (s : LicenseSystem) : LicenseEvent → Prop
  | .tick elapsed => ∀ user, ∀ row ∈ activeRows s.licenses user, s.clock + elapsed < row.expiresAt
  | .commit r id true => ∀ draft, s.InsertAt r id draft →
      activeRows s.licenses draft.userId = [] ∧ s.clock < draft.expiresAt ∧
        (featureFlags draft.features).isSome = true
  | _ => True

/-- The invariant: a single active row a user, unexpired and fit for the response. -/
def AllKept (s : LicenseSystem) : Prop :=
  s.AtMostOne ∧ ∀ user, ∀ row ∈ activeRows s.licenses user,
    s.clock < row.expiresAt ∧ (featureFlags row.features).isSome = true

section Runs

variable {payloadOf : String → Option LicensePayload} {hash : Nat → String → Int}
variable {setting : Option String}

private theorem clock_step (s : LicenseSystem) (event : LicenseEvent) :
    (s.step payloadOf hash setting event).clock = s.clock ∨
      ∃ elapsed, event = .tick elapsed ∧
        s.step payloadOf hash setting event = { s with clock := s.clock + elapsed } := by
  cases event with
  | tick elapsed => exact Or.inr ⟨elapsed, rfl, rfl⟩
  | drop r => exact Or.inl rfl
  | _ =>
      simp only [step]
      split <;> exact Or.inl rfl

private theorem insertsFree_of_kept {s : LicenseSystem} {event : LicenseEvent} (h : s.Kept event) :
    s.InsertsFree event := by
  unfold InsertsFree
  split
  · exact fun draft hinsert => (h draft hinsert).1
  · exact trivial

private theorem allKept_step {s : LicenseSystem} {event : LicenseEvent} (h : s.AllKept)
    (hkept : s.Kept event) : (s.step payloadOf hash setting event).AllKept := by
  refine ⟨atMostOne_step h.1 (insertsFree_of_kept hkept), fun user row hrow => ?_⟩
  rcases clock_step s event with hclock | ⟨elapsed, rfl, hstep⟩
  · rw [hclock]
    rcases @licenses_step payloadOf hash setting s event with
      hsame | ⟨id, hoff⟩ | ⟨r, id, draft, rfl, hinsert, hrows⟩
    · exact h.2 user row (hsame ▸ hrow)
    · exact h.2 user row ((activeRows_switchOff id s.licenses user).subset (hoff ▸ hrow))
    · obtain ⟨-, hexpiry, hfeatures⟩ := hkept draft hinsert
      rw [activeRows_insert hrows] at hrow
      split at hrow
      · rcases List.mem_cons.mp hrow with rfl | hold
        · exact ⟨hexpiry, hfeatures⟩
        · exact h.2 user row hold
      · exact h.2 user row hrow
  · rw [hstep] at hrow ⊢
    exact ⟨hkept user row hrow, (h.2 user row hrow).2⟩

theorem AllKept.consistent {s : LicenseSystem} (h : s.AllKept) (user : Nat) :
    ConsistentRows s.clock user s.licenses :=
  ⟨fun row hrow _ => h.2 user row hrow, fun hseveral => absurd (h.1 user) (Nat.not_le.mpr hseveral)⟩

end Runs

/-- In every state of a run without a `LICENSE_KEY` the answers coincide exactly when the user's rows
are consistent, which they always are in a run whose steps keep them so. The middleware answers as
the dependency does. -/
theorem answers_coincide_iff (payloadOf : String → Option LicensePayload)
    (hash : Nat → String → Int) (events : List LicenseEvent) (s : LicenseSystem)
    (hs : s ∈ visited (step payloadOf hash none) initial events) (user process id : Nat)
    (key : String) (draft : LicenseDraft)
    (hkey : activateDraft payloadOf (hash process) s.clock user key = .ok draft) :
    (Coincide payloadOf (hash process) s.clock user key id s.licenses ↔
      ConsistentRows s.clock user s.licenses) ∧
    (Along (step payloadOf hash none) Kept initial events →
      Coincide payloadOf (hash process) s.clock user key id s.licenses) ∧
    middlewareLicense s.clock user s.licenses =
      (requireValidLicense payloadOf (hash process) none s.clock user id s.licenses).1 := by
  refine ⟨coincide_iff hkey, fun hkept => (coincide_iff hkey).mpr ?_,
    requireValidLicense_none.symm⟩
  have hstart : initial.AllKept :=
    ⟨fun _ => Nat.zero_le 1, fun _ _ hrow => absurd hrow List.not_mem_nil⟩
  exact (visited_of_along allKept_step hstart hkept s hs).consistent user

end LicenseSystem

/-- One activation, and the time passes the expiry. -/
def activatedThenExpired : List LicenseEvent :=
  [.activate 0 1 0 keyTen, .activateQuery 0, .commit 0 1 true, .tick 20]

/-- The same before the expiry. -/
def activatedOnce : List LicenseEvent := activatedThenExpired.take 3

def afterEvents (events : List LicenseEvent) : LicenseSystem :=
  events.foldl (LicenseSystem.step twoKeys twoHashes none) .initial

theorem activateDraft_keyHundred {now : Nat} (h : now ≤ 100) :
    activateDraft twoKeys (twoHashes 0) now 1 keyHundred = .ok ⟨92, 1, .obj [], 100⟩ := by
  have hne : keyHundred ≠ keyTen := by with_unfolding_all decide
  have hpayload : validateLicenseKey twoKeys now keyHundred = some ⟨.int 1, .obj [], 100⟩ := by
    rw [validateLicenseKey, twoKeys, if_neg hne, if_pos rfl, Option.filter_some,
      if_pos (decide_eq_true (Nat.not_lt.mpr h))]
  have hhash : twoHashes 0 keyHundred = 92 := if_neg hne
  have hassigned : ¬ ((Json.int 1).truthy = true ∧ (Json.int 1).pyNumber? ≠ some ((1 : Nat) : ℚ)) :=
    fun hother => hother.2 rfl
  unfold activateDraft
  rw [hpayload, hhash]
  simp only [refuseIf, if_neg hassigned]
  rfl

theorem answers_coincide_iff_of_activatedOnce :
    Coincide twoKeys (twoHashes 0) (afterEvents activatedOnce).clock 1 keyHundred 2
      (afterEvents activatedOnce).licenses :=
  (LicenseSystem.answers_coincide_iff twoKeys twoHashes activatedOnce (afterEvents activatedOnce)
    (foldl_mem_visited _ _ _) 1 0 2 keyHundred _
    (activateDraft_keyHundred (by decide +kernel))).1.mpr (by decide +kernel)

/-- After the expiry the dependency refuses the user whose status is still active. -/
theorem expired_licence_reported_active :
    let s := afterEvents activatedThenExpired
    ¬ Coincide twoKeys (twoHashes 0) s.clock 1 keyHundred 2 s.licenses ∧
      (middlewareLicense s.clock 1 s.licenses).toOption.isNone = true ∧
      (getLicenseStatus s.clock 1 s.licenses).toOption = some ⟨true, [], 10⟩ := by
  refine ⟨fun h => ?_, by decide +kernel, by decide +kernel⟩
  exact absurd ((coincide_iff (activateDraft_keyHundred (by decide +kernel))).mp h)
    (by decide +kernel)

end SphereFx.Api
