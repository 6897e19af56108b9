import SphereFx.Live.AtMostOnce

/-!
# The live queue as an atomic store

What other sessions can read of the queue, its committed rows, changes by one whole write at a time:
a job is enqueued, cancelled, claimed or finished, and each of these finds the job in the status it
needs. Everything else that happens, the locks, the versions that are not committed, the messages and
the crashes, leaves these rows as they are. So what holds of every history of the atomic store holds
of every interleaving.
-/

namespace SphereFx.Live

open LockTable

/-! ### The store -/

/-- The jobs that can be read, by their ids. -/
abbrev Store := JobId → Option LiveJob

/-- One write, done at once. -/
inductive AtomicStep (store : Store) : Store → Prop where
  | enqueue (job : LiveJob) (hpending : job.status = .pending) (hfresh : store job.id = none)
      (hpair : ∀ {id other}, store id = some other → other.pair ≠ job.pair) :
      AtomicStep store (Function.update store job.id (some job))
  | cancel {id : JobId} {job : LiveJob} (now : Nat) (hjob : store id = some job)
      (hpending : job.status = .pending) :
      AtomicStep store (Function.update store id (some (job.cancel now)))
  | claim {id : JobId} {job : LiveJob} (now : Nat) (hjob : store id = some job)
      (hpending : job.status = .pending) :
      AtomicStep store (Function.update store id (some (job.claim now)))
  | succeed {id : JobId} {job : LiveJob} (now : Nat) (result : Json) (hjob : store id = some job)
      (hclaimed : job.status = .claimed) :
      AtomicStep store (Function.update store id (some (job.finish now .success result)))
  /-- Also a job that was stored as `SUCCESS`, by the deferred write. -/
  | fail {id : JobId} {job : LiveJob} (now : Nat) (result : Json) (hjob : store id = some job)
      (hstatus : job.status = .claimed ∨ job.status = .success) :
      AtomicStep store (Function.update store id (some (job.finish now .failed result)))

/-- The store after any number of writes. -/
abbrev AtomicRun : Store → Store → Prop := Relation.ReflTransGen AtomicStep

/-- A later status of a job. -/
def JobStatus.leadsTo : JobStatus → JobStatus → Bool
  | .pending, _ => true
  | .claimed, next => next = .claimed || next = .success || next = .failed
  | .success, next => next = .success || next = .failed
  | .failed, next => next = .failed
  | .cancelled, next => next = .cancelled

theorem JobStatus.leadsTo_refl (status : JobStatus) : status.leadsTo status = true := by
  cases status <;> rfl

theorem JobStatus.leadsTo_trans {a b c : JobStatus} (hab : a.leadsTo b = true)
    (hbc : b.leadsTo c = true) : a.leadsTo c = true := by
  cases a <;> cases b <;> cases c <;> simp_all [leadsTo]

/-- The columns an order is made of, which no write changes. -/
def LiveJob.order (job : LiveJob) : JobId × (Nat × Nat) × Nat × ℚ × Json × Nat :=
  (job.id, job.pair, job.userId, job.lotSize, job.payload, job.createdAt)

/-- What can become of a row. -/
structure Evolves (job job' : LiveJob) : Prop where
  order : job'.order = job.order
  status : job.status.leadsTo job'.status = true
  claimedAt : job.status ≠ .pending → job'.claimedAt = job.claimedAt
  final : job.status = .failed ∨ job.status = .cancelled → job' = job

theorem Evolves.refl (job : LiveJob) : Evolves job job :=
  ⟨rfl, job.status.leadsTo_refl, fun _ => rfl, fun _ => rfl⟩

theorem Evolves.trans {u v w : LiveJob} (huv : Evolves u v) (hvw : Evolves v w) : Evolves u w where
  order := hvw.order.trans huv.order
  status := JobStatus.leadsTo_trans huv.status hvw.status
  claimedAt := fun h => by
    have hv : v.status ≠ .pending := by
      intro hpending
      have hleads := huv.status
      rw [hpending] at hleads
      cases hu : u.status <;> simp_all [JobStatus.leadsTo]
    exact (hvw.claimedAt hv).trans (huv.claimedAt h)
  final := fun h => by
    have hv : v = u := huv.final h
    rw [hv] at hvw
    exact hvw.final h

theorem Evolves.of_write {job job' : LiveJob} (horder : job'.order = job.order)
    (hstatus : job.status.leadsTo job'.status = true)
    (hclaimedAt : job.status ≠ .pending → job'.claimedAt = job.claimedAt)
    (hopen : job.status ≠ .failed ∧ job.status ≠ .cancelled) : Evolves job job' :=
  ⟨horder, hstatus, hclaimedAt, fun h => absurd h (by simp [hopen])⟩

theorem exists_evolves_update {store : Store} {id key : JobId} {job other job' : LiveJob}
    (hother : store key = some other) (hjob : store id = some job) (h : Evolves job job') :
    ∃ other', Function.update store id (some job') key = some other' ∧ Evolves other other' := by
  by_cases hkey : key = id
  · subst hkey
    rw [hjob] at hother
    cases hother
    exact ⟨job', Function.update_self key (some job') store, h⟩
  · exact ⟨other, (Function.update_of_ne hkey (some job') store).trans hother, .refl other⟩

theorem AtomicStep.evolves {store store' : Store} (h : AtomicStep store store') {id : JobId}
    {job : LiveJob} (hjob : store id = some job) :
    ∃ job', store' id = some job' ∧ Evolves job job' := by
  cases h with
  | enqueue new _ hfresh _ =>
      have hne : id ≠ new.id := by
        intro hid
        rw [hid, hfresh] at hjob
        cases hjob
      exact ⟨job, (Function.update_of_ne hne (some new) store).trans hjob, .refl job⟩
  | cancel now hold hpending =>
      exact exists_evolves_update hjob hold
        (.of_write rfl (by rw [hpending]; rfl) (fun h => absurd hpending h) (by simp [hpending]))
  | claim now hold hpending =>
      exact exists_evolves_update hjob hold
        (.of_write rfl (by rw [hpending]; rfl) (fun h => absurd hpending h) (by simp [hpending]))
  | succeed now result hold hclaimed =>
      exact exists_evolves_update hjob hold
        (.of_write rfl (by rw [hclaimed]; rfl) (fun _ => rfl) (by simp [hclaimed]))
  | fail now result hold hstatus =>
      rcases hstatus with hstatus | hstatus
      · exact exists_evolves_update hjob hold
          (.of_write rfl (by rw [hstatus]; rfl) (fun _ => rfl) (by simp [hstatus]))
      · exact exists_evolves_update hjob hold
          (.of_write rfl (by rw [hstatus]; rfl) (fun _ => rfl) (by simp [hstatus]))

theorem AtomicRun.evolves {store store' : Store} (h : AtomicRun store store') {id : JobId}
    {job : LiveJob} (hjob : store id = some job) :
    ∃ job', store' id = some job' ∧ Evolves job job' := by
  induction h with
  | refl => exact ⟨job, hjob, .refl job⟩
  | tail _ hstep ih =>
      obtain ⟨mid, hmid, hfirst⟩ := ih
      obtain ⟨job', hjob', hnext⟩ := hstep.evolves hmid
      exact ⟨job', hjob', hfirst.trans hnext⟩

end SphereFx.Live
