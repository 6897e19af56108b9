import SphereFx.Live.QueueService

/-!
# The two claims

`claim_job` of the API beside `ClaimNextJob` of the worker, each committed. The worker's claim is
stored, the API's is not: the row stays `PENDING`, so the same job is handed out again and cannot be
completed.
-/

namespace SphereFx.Live

/-! ### One claim -/

/-- The job with the values of its claim timestamps left out. -/
def LiveJob.untimed (job : LiveJob) : LiveJob :=
  { job with
    claimedAt := job.claimedAt.map fun _ => 0
    startedAt := job.startedAt.map fun _ => 0
    updatedAt := job.updatedAt.map fun _ => 0 }

/-- The returned job is stored as claimed and the other rows are as before. -/
structure ClaimStored (jobs jobs' : JobTable) (job : LiveJob) : Prop where
  claimed : ∃ row, jobs'.find? job.id = some row ∧ row.status = .claimed ∧
    row.claimedAt.isSome = true ∧ row.startedAt.isSome = true
  others : ∀ id ≠ job.id, jobs'.find? id = jobs.find? id

/-- Both claims return the same job and leave the same table, timestamps aside. -/
def SameClaim (pick : JobId) (claimedAt startedAt now : Nat) (jobs : JobTable) : Prop :=
  ∃ job table job' table', committedClaim pick claimedAt startedAt jobs = some (job, table) ∧
    claimNextJob none pick now jobs = (.ok job', table') ∧
    job.map LiveJob.untimed = job'.map LiveJob.untimed ∧
    table.rows.map LiveJob.untimed = table'.rows.map LiveJob.untimed ∧
    ∀ claimed ∈ job, ClaimStored jobs table claimed

private theorem claimNextJob_of_selectNext {pick : JobId} {now : Nat} {jobs : JobTable} {row : LiveJob}
    (h : selectNext jobs pick = some row) :
    claimNextJob none pick now jobs =
      (.ok (some (row.claimedCopy now)), markClaimed jobs row.id now) := by
  simp only [claimNextJob, h]

theorem claimNextJob_of_none {pick : JobId} {now : Nat} {jobs : JobTable}
    (h : selectNext jobs pick = none) : claimNextJob none pick now jobs = (.ok none, jobs) := by
  simp only [claimNextJob, h]

theorem find?_of_selectNext {pick : JobId} {jobs : JobTable} {row : LiveJob}
    (h : selectNext jobs pick = some row) : jobs.find? row.id = some row :=
  Table.find?_eq_some.mpr ⟨(selectNext_mem h).1, rfl⟩

/-- The claims agree exactly on the tables that have nothing to claim. -/
theorem sameClaim_iff (pick : JobId) (claimedAt startedAt now : Nat) (jobs : JobTable) :
    SameClaim pick claimedAt startedAt now jobs ↔ ∀ job ∈ jobs.rows, job.status ≠ .pending := by
  rw [← selectNext_eq_none jobs pick]
  constructor
  · rintro ⟨job, table, _, _, hpython, -, -, -, hstored⟩
    rw [committedClaim_eq] at hpython
    cases hselect : selectNext jobs pick with
    | none => rfl
    | some row =>
        rw [hselect] at hpython
        obtain ⟨rfl, rfl⟩ := Prod.mk.inj (Option.some.inj hpython)
        obtain ⟨found, hfound, hclaimed, -⟩ := (hstored _ rfl).claimed
        have hrow : found = row :=
          Option.some.inj (hfound.symm.trans (find?_of_selectNext hselect))
        rw [hrow, (selectNext_mem hselect).2] at hclaimed
        cases hclaimed
  · intro hselect
    refine ⟨none, jobs, none, jobs, ?_, claimNextJob_of_none hselect, rfl, rfl, ?_⟩
    · rw [committedClaim_eq, hselect]
      rfl
    · exact fun claimed hclaimed => nomatch hclaimed

/-! ### Sequences of claims -/

inductive Claim where
  | python (pick : JobId) (claimedAt startedAt : Nat)
  | go (pick : JobId) (now : Nat)

/-- The table and the ids of the jobs returned so far. -/
structure ClaimRun where
  jobs : JobTable
  returned : List JobId

def ClaimRun.start (jobs : JobTable) : ClaimRun := ⟨jobs, []⟩

def claimStep (s : ClaimRun) : Claim → ClaimRun
  | .python pick claimedAt startedAt =>
      match committedClaim pick claimedAt startedAt s.jobs with
      | some (some job, jobs) => ⟨jobs, job.id :: s.returned⟩
      | some (none, jobs) => { s with jobs := jobs }
      | none => s
  | .go pick now =>
      match claimNextJob none pick now s.jobs with
      | (.ok (some job), jobs) => ⟨jobs, job.id :: s.returned⟩
      | (_, jobs) => { s with jobs := jobs }

/-- No job was returned twice, and `complete_job` succeeds on every returned one. -/
structure ClaimRun.Exclusive (s : ClaimRun) : Prop where
  once : s.returned.Nodup
  completes : ∀ id ∈ s.returned, ∀ status result now,
    (completeJob id status result now s.jobs).1 = true

/-- `claim_job` is called only when no job is pending. -/
def FindsNothing (s : ClaimRun) : Claim → Prop
  | .python .. => ∀ job ∈ s.jobs.rows, job.status ≠ .pending
  | .go .. => True

theorem claimStep_python (s : ClaimRun) (pick claimedAt startedAt : Nat) :
    claimStep s (.python pick claimedAt startedAt) =
      match selectNext s.jobs pick with
      | some row => ⟨s.jobs, row.id :: s.returned⟩
      | none => s := by
  simp only [claimStep, committedClaim_eq]
  cases selectNext s.jobs pick with
  | none => rfl
  | some row => rfl

private theorem claimStep_go (s : ClaimRun) (pick now : Nat) :
    claimStep s (.go pick now) =
      match selectNext s.jobs pick with
      | some row => ⟨markClaimed s.jobs row.id now, row.id :: s.returned⟩
      | none => s := by
  cases hselect : selectNext s.jobs pick with
  | none => simp only [claimStep, claimNextJob_of_none hselect]
  | some row => simp only [claimStep, claimNextJob_of_selectNext hselect, LiveJob.claimedCopy]

/-- The invariant: returned jobs are different and stored as claimed. -/
def ClaimRun.AllClaimed (s : ClaimRun) : Prop :=
  s.returned.Nodup ∧ ∀ id ∈ s.returned, ∃ row, s.jobs.find? id = some row ∧ row.status = .claimed

theorem ClaimRun.AllClaimed.exclusive {s : ClaimRun} (h : s.AllClaimed) : s.Exclusive where
  once := h.1
  completes := by
    intro id hid status result now
    obtain ⟨row, hrow, hclaimed⟩ := h.2 id hid
    exact (completeJob_iff hrow).mpr hclaimed

private theorem allClaimed_step {s : ClaimRun} {claim : Claim} (h : s.AllClaimed)
    (hmeets : FindsNothing s claim) : (claimStep s claim).AllClaimed := by
  cases claim with
  | python pick claimedAt startedAt =>
      rw [claimStep_python, (selectNext_eq_none s.jobs pick).mpr hmeets]
      exact h
  | go pick now =>
      rw [claimStep_go]
      cases hselect : selectNext s.jobs pick with
      | none => exact h
      | some row =>
          have hrow := find?_of_selectNext hselect
          refine ⟨List.nodup_cons.mpr ⟨fun hmem => ?_, h.1⟩, fun id hid => ?_⟩
          · obtain ⟨found, hfound, hclaimed⟩ := h.2 row.id hmem
            rw [Option.some.inj (hfound.symm.trans hrow), (selectNext_mem hselect).2] at hclaimed
            cases hclaimed
          · by_cases hne : id = row.id
            · rw [hne]
              exact ⟨row.claim now, find?_markClaimed hrow now, rfl⟩
            · obtain ⟨found, hfound, hclaimed⟩ := h.2 id ((List.mem_cons.mp hid).resolve_left hne)
              exact ⟨found, (find?_markClaimed_of_ne hne now).trans hfound, hclaimed⟩

private theorem findsNothing_of_exclusive {s : ClaimRun} {claim : Claim}
    (h : (claimStep s claim).Exclusive) : FindsNothing s claim := by
  cases claim with
  | go pick now => exact trivial
  | python pick claimedAt startedAt =>
      rw [claimStep_python] at h
      refine (selectNext_eq_none s.jobs pick).mp ?_
      cases hselect : selectNext s.jobs pick with
      | none => rfl
      | some row =>
          rw [hselect] at h
          have hcompleted := h.completes row.id List.mem_cons_self .success .null 0
          have hclaimed := (completeJob_iff (find?_of_selectNext hselect)).mp hcompleted
          rw [(selectNext_mem hselect).2] at hclaimed
          cases hclaimed

/-- The two claims are the same operation on the tables without a pending job, and a sequence of
claims is exclusive exactly when `claim_job` meets only such tables. -/
theorem claims_agree_iff (jobs : JobTable) :
    (∀ pick claimedAt startedAt now, SameClaim pick claimedAt startedAt now jobs ↔
      ∀ job ∈ jobs.rows, job.status ≠ .pending) ∧
    ∀ claims, (∀ s ∈ visited claimStep (.start jobs) claims, s.Exclusive) ↔
      Along claimStep FindsNothing (.start jobs) claims := by
  refine ⟨fun pick claimedAt startedAt now => sameClaim_iff pick claimedAt startedAt now jobs,
    fun claims => ⟨fun h => ?_, fun h s hs => ?_⟩⟩
  · exact @along_of_visited _ _ claimStep FindsNothing ClaimRun.Exclusive (fun _ => True)
      (fun _ => trivial) (fun _ _ hnext => findsNothing_of_exclusive hnext) _ _ trivial h
  · have hstart : (ClaimRun.start jobs).AllClaimed :=
      ⟨List.nodup_nil, fun _ hid => absurd hid List.not_mem_nil⟩
    exact (visited_of_along (fun hs hmeets => allClaimed_step hs hmeets) hstart h s hs).exclusive

/-- One pending job. -/
def onePending : JobTable :=
  ⟨[.enqueued 7 1 2 3 (1 / 10) (.obj []) 5], List.nodup_singleton _⟩

/-- Claimed by `claim_job` twice, the only job is returned twice, and neither the table nor
`complete_job` agrees with the worker's claim. -/
theorem pending_job_claimed_twice :
    ¬ SameClaim 7 10 10 10 onePending ∧
    ([Claim.python 7 10 10, .python 7 11 11].foldl claimStep (.start onePending)).returned = [7, 7] ∧
    (completeJob 7 .success .null 12
      ([Claim.python 7 10 10].foldl claimStep (.start onePending)).jobs).1 = false := by
  refine ⟨fun h => ?_, by decide, by decide⟩
  exact (sameClaim_iff 7 10 10 10 onePending).mp h _ List.mem_cons_self rfl

end SphereFx.Live
