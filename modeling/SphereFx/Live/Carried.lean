import SphereFx.Live.Queue

/-!
# Every held job was enqueued as it is

`enqueue_job` fixes what a job is for: the signal, the account, the user, the lot size and the
payload. No statement of any party changes these columns afterwards, and a worker takes them from the
row it has locked. So whatever holds of the orders that a run enqueues holds of every job in the table
and in a worker's hands, in every state of the run.
-/

namespace SphereFx.Live

open LockTable

/-- The orders that a run enqueues. -/
def enqueued : Queue → List Action → List JobOrder
  | _, [] => []
  | s, act :: rest =>
      (s.enqueues act).toList ++ ((s.step act).map fun t => enqueued t rest).getD []

/-- The job an actor has read, from the locking `SELECT` on. -/
def Actor.carried? : Actor → Option LiveJob
  | .selected job => some job
  | .claiming job => some job
  | x => x.job?

theorem Actor.carried?_of_job {x : Actor} {job : LiveJob} (h : x.job? = some job) :
    x.carried? = some job := by
  cases x <;> first | exact h | cases h

theorem Actor.carried?_eq_none {x : Actor} (hlocked : x.locked? = none) (hjob : x.job? = none) :
    x.carried? = none := by
  cases x with
  | selected job => cases hlocked
  | claiming job => cases hlocked
  | _ => exact hjob

/-- Every job in the table and in an actor's hands is for an order with the property. -/
structure CarriesOnly (P : JobOrder → Prop) (s : Queue) : Prop where
  rows : Throughout (fun job => P job.jobOrder) s.rows
  actors : ∀ a job, (s.actors a).carried? = some job → P job.jobOrder

theorem carriesOnly_empty (P : JobOrder → Prop) : CarriesOnly P Queue.empty where
  rows := Throughout.empty
  actors a job h := by cases h

section Steps

variable {P : JobOrder → Prop} {s s' : Queue}

theorem CarriesOnly.moved (h : CarriesOnly P s) {a : ActorId} {x : Actor}
    (hrows : Throughout (fun job => P job.jobOrder) s'.rows)
    (hactors : s'.actors = Function.update s.actors a x)
    (hx : ∀ job, x.carried? = some job → P job.jobOrder) : CarriesOnly P s' where
  rows := hrows
  actors b job hjob := by
    rw [hactors] at hjob
    by_cases hb : b = a
    · rw [hb, Function.update_self] at hjob
      exact hx job hjob
    · rw [Function.update_of_ne hb] at hjob
      exact h.actors b job hjob

theorem CarriesOnly.goes (h : CarriesOnly P s) {a : ActorId} {x y : Actor} (hx : s.actors a = x)
    (hrows : Throughout (fun job => P job.jobOrder) s'.rows)
    (hactors : s'.actors = Function.update s.actors a y) (hsame : y.carried? = x.carried?) :
    CarriesOnly P s' :=
  h.moved hrows hactors fun job hjob => h.actors a job (by rw [hx, ← hsame, hjob])

theorem CarriesOnly.drops (h : CarriesOnly P s) {a : ActorId} {x : Actor}
    (hrows : Throughout (fun job => P job.jobOrder) s'.rows)
    (hactors : s'.actors = Function.update s.actors a x) (hx : x.carried? = none) : CarriesOnly P s' :=
  h.moved hrows hactors fun job hjob => by
    rw [hx] at hjob
    cases hjob

theorem CarriesOnly.of_eq (h : CarriesOnly P s) (hrows : s'.rows = s.rows) (hactors : s'.actors = s.actors) :
    CarriesOnly P s' where
  rows := hrows ▸ h.rows
  actors := hactors ▸ h.actors

theorem CarriesOnly.settleRows (h : CarriesOnly P s) (a : ActorId) (id : JobId) (applied : Bool) :
    Throughout (fun job => P job.jobOrder) (s.settleRows a id applied) := by
  cases applied with
  | true => exact h.rows.commit a id
  | false => exact h.rows.rollback a id

theorem CarriesOnly.updateJobStatus (h : CarriesOnly P s) {id : JobId} {now : Nat} {status : JobStatus}
    {result : Json} {applied : Bool} {rows : LockTable ActorId JobId LiveJob}
    (hwrite : s.updateJobStatus id now status result applied = some rows) :
    Throughout (fun job => P job.jobOrder) rows := by
  cases applied with
  | true => exact h.rows.autocommit hwrite fun _ horder => by rwa [LiveJob.jobOrder_finish]
  | false => exact Option.some.inj hwrite ▸ h.rows

theorem CarriesOnly.abandon (h : CarriesOnly P s) (a : ActorId) : CarriesOnly P (s.abandon a) := by
  refine h.drops ?_ rfl rfl
  simp only [Queue.abandon]
  split
  · exact h.rows.rollback a _
  · exact h.rows

theorem CarriesOnly.effect (h : CarriesOnly P s) {act : Action}
    (hnew : ∀ order ∈ s.enqueues act, P order) (heffect : s.Effect act s') : CarriesOnly P s' := by
  cases heffect with
  | stay => exact h
  | move a x hlocked hjob =>
      exact h.drops h.rows rfl (Actor.carried?_eq_none hlocked hjob)
  | insert _ _ hrows horder =>
      exact h.drops (h.rows.insertNew hrows (hnew _ horder)) rfl rfl
  | cancel hrows =>
      obtain ⟨mid, hacquire, hrewrite⟩ := Option.bind_eq_some_iff.mp hrows
      have hmid := h.rows.acquire hacquire
      have hcancelled := hmid.rewrite hrewrite fun _ horder => by rwa [LiveJob.jobOrder_cancel]
      exact h.drops hcancelled rfl rfl
  | select hjob hrows =>
      refine h.moved (h.rows.acquire hrows) rfl fun other hother => ?_
      cases hother
      exact h.rows.committed hjob
  | @claim a job now rows hx hrows =>
      have hclaimed := h.rows.rewrite hrows fun _ horder => by rwa [LiveJob.jobOrder_claim]
      refine h.moved hclaimed rfl fun other hother => ?_
      cases hother
      exact h.actors a job (by rw [hx]; rfl)
  | settle _ applied => exact h.drops (h.settleRows _ _ applied) rfl rfl
  | commitCancel _ applied => exact h.drops (h.settleRows _ _ applied) rfl rfl
  | commitClaim hx => exact h.goes hx (h.settleRows _ _ true) rfl rfl
  | abandon a => exact h.abandon a
  | giveUp hx => exact h.goes hx h.rows rfl rfl
  | post hx => exact h.goes hx h.rows rfl rfl
  | answer hx _ => exact h.goes hx h.rows rfl rfl
  | reject hx _ => exact h.goes hx h.rows rfl rfl
  | fault hjob => exact h.goes rfl h.rows rfl (Actor.carried?_of_job hjob).symm
  | record hx hrows => exact h.goes hx (h.updateJobStatus hrows) rfl rfl
  | recordFault hx hrows => exact h.goes hx (h.updateJobStatus hrows) rfl rfl
  | recordFailed hx hrows => exact h.drops (h.updateJobStatus hrows) rfl rfl
  | loseRequest id => exact h.of_eq rfl rfl
  | execute reply hid => exact h.of_eq rfl rfl
  | loseReply id => exact h.of_eq rfl rfl

theorem CarriesOnly.step (h : CarriesOnly P s) {act : Action} (hnew : ∀ order ∈ s.enqueues act, P order)
    (hstep : s.step act = some s') : CarriesOnly P s' :=
  h.effect hnew (Queue.effect_of_step hstep)

theorem CarriesOnly.run (h : CarriesOnly P s) {actions : List Action}
    (hnew : ∀ order ∈ enqueued s actions, P order) (hrun : runFrom Queue.step s actions = some s') :
    CarriesOnly P s' := by
  induction actions generalizing s with
  | nil => exact Option.some.inj hrun ▸ h
  | cons act rest ih =>
      obtain ⟨mid, hmid, hrest⟩ := runFrom_cons hrun
      rw [enqueued, hmid] at hnew
      refine ih (h.step (fun order horder => ?_) hmid) (fun order horder => ?_) hrest
      · exact hnew order (List.mem_append_left _ (Option.mem_toList.mpr horder))
      · exact hnew order (List.mem_append_right _ horder)

end Steps

end SphereFx.Live
