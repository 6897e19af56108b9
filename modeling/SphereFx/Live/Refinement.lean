import SphereFx.Live.AtomicStore

/-!
# The interleaved queue refines the atomic store

The commit of a session is the only point at which its write appears, and the worker's status writes
are single statements. The invariant says which version each open transaction would publish, and
which status the row of a held job has; with it every step is one write of the store or none.
-/

namespace SphereFx.Live

open LockTable

/-! ### What each actor has in hand -/

/-- The statuses a held job's row can have. -/
def Actor.due : Actor → JobStatus → Bool
  | .recorded _, status => status = .claimed || status = .success
  | .failing _, status => status = .claimed || status = .success
  | _, status => status = .claimed

/-- The version an open transaction would publish, or the row of the job that is held. -/
def Actor.Form (rows : LiveJobs) (a : ActorId) : Actor → Prop
  | .inserted id => ∃ job, rows.lookup id = some ⟨none, .held a job⟩ ∧ job.status = .pending
  | .cancelled id => ∃ old now, rows.lookup id = some ⟨some old, .held a (old.cancel now)⟩ ∧
      old.status = .pending
  | .selected job => rows.lookup job.id = some ⟨some job, .held a job⟩ ∧ job.status = .pending
  | .claiming job => ∃ old now, rows.lookup job.id = some ⟨some old, .held a (old.claim now)⟩ ∧
      old.status = .pending
  | x => ∀ job, x.job? = some job → Settled rows job.id fun row => x.due row.status = true

/-- Only pending rows are locked. -/
structure PendingLocked (rows : LiveJobs) : Prop where
  pending : ∀ {id committed owner version},
    rows.lookup id = some ⟨some committed, .held owner version⟩ → committed.status = .pending

structure Forms (s : Queue) : Prop where
  actors : ∀ a, (s.actors a).Form s.rows a
  locked : PendingLocked s.rows

theorem forms_empty : Forms Queue.empty where
  actors := fun _ job h => by simp [Queue.empty, Actor.job?] at h
  locked := ⟨fun h => by simp [Queue.empty] at h⟩

theorem Forms.held {s : Queue} (h : Forms s) {a : ActorId} {x : Actor} (hx : s.actors a = x)
    {job : LiveJob} (hjob : x.job? = some job) :
    Settled s.rows job.id fun row => x.due row.status = true := by
  have hform := h.actors a
  rw [hx] at hform
  cases x <;> first | exact hform job hjob | cases hjob

theorem Actor.Form.of_job {rows : LiveJobs} {a : ActorId} {x : Actor} (hlocked : x.locked? = none)
    (h : ∀ job, x.job? = some job → Settled rows job.id fun row => x.due row.status = true) :
    x.Form rows a := by
  cases x <;> first | exact h | cases hlocked

theorem Actor.Form.of_idle {rows : LiveJobs} {a : ActorId} {x : Actor} (hlocked : x.locked? = none)
    (hjob : x.job? = none) : x.Form rows a :=
  .of_job hlocked fun job h => by
    rw [hjob] at h
    cases h

/-- What an actor has in hand depends on the rows it has locked or holds. -/
theorem Actor.Form.frame {rows rows' : LiveJobs} {b : ActorId} {x : Actor} (h : x.Form rows b)
    (hlock : ∀ {id committed version}, rows.lookup id = some ⟨committed, .held b version⟩ →
      rows'.lookup id = rows.lookup id)
    (hheld : ∀ {job}, x.job? = some job → rows'.lookup job.id = rows.lookup job.id) :
    x.Form rows' b := by
  by_cases hlocked : x.locked? = none
  · refine .of_job hlocked fun job hjob => ?_
    have hform : Settled rows job.id fun row => x.due row.status = true := by
      cases x <;> first | exact h job hjob | cases hlocked
    obtain ⟨row, hrow, hdue⟩ := hform
    exact ⟨row, (hheld hjob).trans hrow, hdue⟩
  · cases x with
    | inserted id =>
        obtain ⟨job, hrow, hpending⟩ := h
        exact ⟨job, (hlock hrow).trans hrow, hpending⟩
    | cancelled id =>
        obtain ⟨old, now, hrow, hpending⟩ := h
        exact ⟨old, now, (hlock hrow).trans hrow, hpending⟩
    | selected job =>
        obtain ⟨hrow, hpending⟩ := h
        exact ⟨(hlock hrow).trans hrow, hpending⟩
    | claiming job =>
        obtain ⟨old, now, hrow, hpending⟩ := h
        exact ⟨old, now, (hlock hrow).trans hrow, hpending⟩
    | _ => exact absurd rfl hlocked

/-! ### What a statement leaves to the others -/

/-- The rows that other actors have locked or hold stay as they are. -/
structure Apart (s : Queue) (a : ActorId) (rows : LiveJobs) : Prop where
  locked : ∀ {id committed holder version},
    s.rows.lookup id = some ⟨committed, .held holder version⟩ → holder ≠ a →
      rows.lookup id = s.rows.lookup id
  held : ∀ {b job}, b ≠ a → (s.actors b).job? = some job →
    rows.lookup job.id = s.rows.lookup job.id

theorem Apart.refl (s : Queue) (a : ActorId) : Apart s a s.rows := ⟨fun _ _ => rfl, fun _ _ => rfl⟩

theorem Apart.session {s : Queue} (hinv : Inv s) {a : ActorId} {rows : LiveJobs}
    (hstep : SessionStep a s.rows rows) : Apart s a rows where
  locked := hstep.others
  held := fun _ hjob => by
    obtain ⟨row, hrow, htaken, -⟩ := hinv.holds hjob
    exact hstep.settled hrow (LiveJob.not_isPending_of_taken htaken)

theorem Apart.insert {s : Queue} (hinv : Inv s) {a : ActorId} {id : JobId} {job : LiveJob}
    {rows : LiveJobs} (hinsert : s.rows.insertNew a id job = some rows) : Apart s a rows := by
  obtain ⟨hnone, rfl⟩ := insertNew_eq_some hinsert
  have hkeep : ∀ {key row}, s.rows.lookup key = some row →
      (s.rows.insert id ⟨none, .held a job⟩).lookup key = s.rows.lookup key := by
    intro key row hrow
    refine AList.lookup_insert_ne ?_
    intro hkey
    rw [hkey, hnone] at hrow
    cases hrow
  refine ⟨fun hrow _ => hkeep hrow, fun _ hjob => ?_⟩
  obtain ⟨row, hrow, -⟩ := hinv.holds hjob
  exact hkeep hrow

/-- `UpdateJobStatus` by the worker that holds the job. -/
theorem Apart.write {s : Queue} (hinv : Inv s) {a : ActorId} {job : LiveJob} {rows : LiveJobs}
    {now : Nat} {status : JobStatus} {result : Json} {applied : Bool}
    (hjob : (s.actors a).job? = some job)
    (hwrite : s.updateJobStatus job.id now status result applied = some rows) : Apart s a rows := by
  unfold Queue.updateJobStatus at hwrite
  split at hwrite
  · obtain ⟨row, hrow, rfl⟩ := autocommit_eq_some hwrite
    constructor
    · intro id committed holder version hheld _
      refine AList.lookup_insert_ne ?_
      intro hid
      rw [hid, hrow] at hheld
      cases hheld
    · intro b other hb hother
      exact AList.lookup_insert_ne fun hid => hb (hinv.exclusive hother hjob hid)
  · cases hwrite
    exact .refl s a

theorem Forms.moved {s s' : Queue} (h : Forms s) {a : ActorId} {x : Actor} {rows : LiveJobs}
    (hrows : s'.rows = rows) (hactors : s'.actors = Function.update s.actors a x)
    (hapart : Apart s a rows) (hlocked : PendingLocked rows) (hx : x.Form rows a) : Forms s' where
  actors := fun b => by
    rw [hrows, hactors]
    by_cases hb : b = a
    · subst hb
      rw [Function.update_self]
      exact hx
    · rw [Function.update_of_ne hb]
      exact (h.actors b).frame (fun hrow => hapart.locked hrow hb) (hapart.held hb)
  locked := by
    rw [hrows]
    exact hlocked

theorem Forms.quiet {s s' : Queue} (h : Forms s) {a : ActorId} {x : Actor} (hrows : s'.rows = s.rows)
    (hactors : s'.actors = Function.update s.actors a x) (hx : x.Form s.rows a) : Forms s' :=
  h.moved hrows hactors (.refl s a) h.locked hx

theorem Forms.of_eq {s s' : Queue} (h : Forms s) (hrows : s'.rows = s.rows)
    (hactors : s'.actors = s.actors) : Forms s' where
  actors := by
    rw [hrows, hactors]
    exact h.actors
  locked := by
    rw [hrows]
    exact h.locked

/-! ### The locks after a statement -/

theorem PendingLocked.insert {rows : LiveJobs} (h : PendingLocked rows) {id : JobId}
    {row : LockRow ActorId LiveJob}
    (hrow : ∀ {committed owner version}, row = ⟨some committed, .held owner version⟩ →
      committed.status = .pending) : PendingLocked (rows.insert id row) := by
  constructor
  intro key committed owner version hkey
  by_cases heq : key = id
  · rw [heq, AList.lookup_insert] at hkey
    exact hrow (Option.some.inj hkey)
  · rw [AList.lookup_insert_ne heq] at hkey
    exact h.pending hkey

theorem PendingLocked.acquire {rows rows' : LiveJobs} (h : PendingLocked rows) {a : ActorId}
    {id : JobId} (hacquire : rows.acquire a id LiveJob.isPending = some rows') :
    PendingLocked rows' := by
  obtain ⟨version, -, hpending, rfl⟩ := acquire_eq_some hacquire
  apply h.insert
  intro committed owner held heq
  cases heq
  exact (LiveJob.isPending_iff version).mp hpending

theorem PendingLocked.rewrite {rows rows' : LiveJobs} (h : PendingLocked rows) {a : ActorId}
    {id : JobId} {f : LiveJob → LiveJob} (hrewrite : rows.rewrite a id f = some rows') :
    PendingLocked rows' := by
  obtain ⟨committed, version, hrow, rfl⟩ := rewrite_eq_some hrewrite
  apply h.insert
  intro old owner held heq
  cases heq
  exact h.pending hrow

theorem PendingLocked.settle {s : Queue} (h : PendingLocked s.rows) {a : ActorId} {id : JobId}
    {committed : Option LiveJob} {version : LiveJob}
    (hrow : s.rows.lookup id = some ⟨committed, .held a version⟩) (applied : Bool) :
    PendingLocked (s.settleRows a id applied) := by
  cases applied with
  | true =>
      rw [settleRows_applied hrow]
      exact h.insert fun heq => by cases heq
  | false =>
      show PendingLocked (s.rows.rollback a id)
      cases committed with
      | some old =>
          rw [rollback_of_held hrow]
          exact h.insert fun heq => by cases heq
      | none =>
          rw [rollback_of_inserted hrow]
          constructor
          intro key old owner held hkey
          by_cases heq : key = id
          · rw [heq, AList.lookup_erase] at hkey
            cases hkey
          · rw [AList.lookup_erase_ne heq] at hkey
            exact h.pending hkey

theorem PendingLocked.write {s : Queue} (h : PendingLocked s.rows) {id : JobId} {now : Nat}
    {status : JobStatus} {result : Json} {applied : Bool} {rows : LiveJobs}
    (hwrite : s.updateJobStatus id now status result applied = some rows) : PendingLocked rows := by
  unfold Queue.updateJobStatus at hwrite
  split at hwrite
  · obtain ⟨row, -, rfl⟩ := autocommit_eq_some hwrite
    exact h.insert fun heq => by cases heq
  · cases hwrite
    exact h

/-! ### Every step keeps the forms -/

theorem Actor.due_failing {x : Actor} {status : JobStatus} (h : x.due status = true) (job : LiveJob) :
    (Actor.failing job).due status = true := by
  cases x <;> simp_all [due]

theorem Form.cancel {rows rows' : LiveJobs} {a : ActorId} {id : JobId} {now : Nat}
    (h : (rows.acquire a id LiveJob.isPending).bind
      (fun mid => mid.rewrite a id (LiveJob.cancel now)) = some rows') :
    (Actor.cancelled id).Form rows' a := by
  obtain ⟨mid, hacquire, hrewrite⟩ := Option.bind_eq_some_iff.mp h
  obtain ⟨version, -, hpending, rfl⟩ := acquire_eq_some hacquire
  obtain ⟨committed, version', hrow, rfl⟩ := rewrite_eq_some hrewrite
  rw [AList.lookup_insert] at hrow
  cases hrow
  exact ⟨version, now, AList.lookup_insert _, (LiveJob.isPending_iff version).mp hpending⟩

theorem Form.select {rows rows' : LiveJobs} (hkeyed : Keyed rows) {a : ActorId} {id : JobId}
    {job : LiveJob} (hjob : rows.committed? id = some job)
    (h : rows.acquire a id LiveJob.isPending = some rows') : (Actor.selected job).Form rows' a := by
  obtain ⟨version, hrow, hpending, rfl⟩ := acquire_eq_some h
  have hversion : version = job := Option.some.inj ((committed?_of_lookup hrow).symm.trans hjob)
  have hid : version.id = id := hkeyed.ids hrow (by simp [LockRow.versions])
  subst hversion
  rw [← hid]
  exact ⟨AList.lookup_insert _, (LiveJob.isPending_iff version).mp hpending⟩

theorem Form.claim {rows rows' : LiveJobs} {a : ActorId} {job : LiveJob} {now : Nat}
    (hform : (Actor.selected job).Form rows a)
    (h : rows.rewrite a job.id (LiveJob.claim now) = some rows') :
    (Actor.claiming (job.claimedCopy now)).Form rows' a := by
  obtain ⟨hselected, hpending⟩ := hform
  obtain ⟨committed, version, hrow, rfl⟩ := rewrite_eq_some h
  rw [hselected] at hrow
  cases hrow
  exact ⟨job, now, AList.lookup_insert _, hpending⟩

theorem Form.hold {s : Queue} {a : ActorId} {job : LiveJob}
    (hform : (Actor.claiming job).Form s.rows a) :
    (Actor.holding job).Form (s.settleRows a job.id true) a := by
  obtain ⟨old, now, hrow, -⟩ := hform
  intro other hother
  cases hother
  refine ⟨old.claim now, ?_, rfl⟩
  rw [settleRows_applied hrow, AList.lookup_insert]

private theorem settled_write {s : Queue} {id : JobId} {now : Nat} {status : JobStatus} {result : Json}
    {applied : Bool} {rows : LiveJobs} {P : JobStatus → Prop}
    (h : Settled s.rows id fun row => P row.status) (hstatus : P status)
    (hwrite : s.updateJobStatus id now status result applied = some rows) :
    Settled rows id fun row => P row.status := by
  unfold Queue.updateJobStatus at hwrite
  split at hwrite
  · obtain ⟨row, -, rfl⟩ := autocommit_eq_some hwrite
    exact ⟨row.finish now status result, AList.lookup_insert _, hstatus⟩
  · cases hwrite
    exact h

theorem Actor.locked_held {rows : LiveJobs} {a : ActorId} {x : Actor} (h : x.Form rows a)
    {id : JobId} (hid : x.locked? = some id) :
    ∃ committed version, rows.lookup id = some ⟨committed, .held a version⟩ := by
  cases x <;> cases hid
  · obtain ⟨job, hrow, -⟩ := h
    exact ⟨_, _, hrow⟩
  · obtain ⟨old, now, hrow, -⟩ := h
    exact ⟨_, _, hrow⟩
  · exact ⟨_, _, h.1⟩
  · obtain ⟨old, now, hrow, -⟩ := h
    exact ⟨_, _, hrow⟩

theorem PendingLocked.abandon {s : Queue} (h : Forms s) (a : ActorId) :
    PendingLocked (s.abandon a).rows := by
  simp only [Queue.abandon]
  split
  · rename_i id hid
    obtain ⟨committed, version, hrow⟩ := Actor.locked_held (h.actors a) hid
    exact h.locked.settle hrow false
  · exact h.locked

theorem Forms.settle {s s' : Queue} (h : Forms s) (hinv : Inv s) {a : ActorId} {id : JobId}
    (hid : (s.actors a).locked? = some id) {applied : Bool}
    (hrows : s'.rows = s.settleRows a id applied)
    (hactors : s'.actors = Function.update s.actors a .idle) : Forms s' := by
  obtain ⟨committed, version, hrow⟩ := Actor.locked_held (h.actors a) hid
  exact h.moved hrows hactors (.session hinv (settleRows_session hrow applied))
    (h.locked.settle hrow applied) (.of_idle rfl rfl)

theorem Forms.goes {s s' : Queue} (h : Forms s) {a : ActorId} {x y : Actor} {job : LiveJob}
    (hx : s.actors a = x) (hjob : x.job? = some job) (hy : y.job? = some job)
    (hlocked : y.locked? = none) (hdue : ∀ {status}, x.due status = true → y.due status = true)
    (hrows : s'.rows = s.rows) (hactors : s'.actors = Function.update s.actors a y) : Forms s' := by
  refine h.quiet hrows hactors (.of_job hlocked fun other hother => ?_)
  rw [hy] at hother
  cases hother
  obtain ⟨row, hrow, hstatus⟩ := h.held hx hjob
  exact ⟨row, hrow, hdue hstatus⟩

/-- A worker that has written a status and goes on with the job. -/
theorem Forms.writes {s s' : Queue} (h : Forms s) (hinv : Inv s) {a : ActorId} {x y : Actor}
    {job : LiveJob} {now : Nat} {status : JobStatus} {result : Json} {applied : Bool}
    {rows : LiveJobs} (hx : s.actors a = x) (hjob : x.job? = some job) (hy : y.job? = some job)
    (hlocked : y.locked? = none) (hdue : ∀ {status}, x.due status = true → y.due status = true)
    (hstatus : y.due status = true)
    (hwrite : s.updateJobStatus job.id now status result applied = some rows)
    (hrows : s'.rows = rows) (hactors : s'.actors = Function.update s.actors a y) : Forms s' := by
  have hheld : (s.actors a).job? = some job := by rw [hx, hjob]
  refine h.moved hrows hactors (.write hinv hheld hwrite) (h.locked.write hwrite)
    (.of_job hlocked fun other hother => ?_)
  rw [hy] at hother
  cases hother
  obtain ⟨row, hrow, hold⟩ := h.held hx hjob
  exact settled_write (P := fun status => y.due status = true) ⟨row, hrow, hdue hold⟩ hstatus hwrite

theorem Forms.effect {s s' : Queue} {act : Action} (h : Forms s) (hinv : Inv s)
    (heffect : s.Effect act s') : Forms s' := by
  cases heffect with
  | stay => exact h
  | move a x hlocked hjob => exact h.quiet rfl rfl (.of_idle hlocked hjob)
  | insert hstatus hpair hrows =>
      refine h.moved rfl rfl (.insert hinv hrows) ?_ ?_
      · obtain ⟨-, rfl⟩ := insertNew_eq_some hrows
        exact h.locked.insert fun heq => by cases heq
      · obtain ⟨-, rfl⟩ := insertNew_eq_some hrows
        exact ⟨_, AList.lookup_insert _, hstatus⟩
  | cancel hrows =>
      refine h.moved rfl rfl (.session hinv (cancelUpdate_spec hrows).1) ?_ (Form.cancel hrows)
      obtain ⟨mid, hacquire, hrewrite⟩ := Option.bind_eq_some_iff.mp hrows
      exact (h.locked.acquire hacquire).rewrite hrewrite
  | select hjob hrows =>
      exact h.moved rfl rfl (.session hinv (claimSelect_spec hinv.keyed hjob hrows).1)
        (h.locked.acquire hrows) (Form.select hinv.keyed hjob hrows)
  | claim hx hrows =>
      exact h.moved rfl rfl (.session hinv (claimUpdate_spec (hx ▸ hinv.locks _) hrows).1)
        (h.locked.rewrite hrows) (Form.claim (hx ▸ h.actors _) hrows)
  | settle hid applied => exact h.settle hinv hid rfl rfl
  | commitCancel hx applied => exact h.settle hinv (by rw [hx]; rfl) rfl rfl
  | @commitClaim a job hx =>
      have hform : (Actor.claiming job).Form s.rows a := hx ▸ h.actors a
      obtain ⟨committed, version, hrow⟩ := Actor.locked_held hform rfl
      exact h.moved rfl rfl (.session hinv (settleRows_session hrow true))
        (h.locked.settle hrow true) (Form.hold hform)
  | abandon a =>
      exact h.moved rfl rfl (.session hinv (abandon_session hinv a)) (.abandon h a) (.of_idle rfl rfl)
  | giveUp hx => exact h.goes hx rfl rfl rfl (fun hdue => Actor.due_failing hdue _) rfl rfl
  | post hx => exact h.goes (y := .awaiting _) hx rfl rfl rfl (fun hdue => hdue) rfl rfl
  | answer hx _ => exact h.goes (y := .answered _) hx rfl rfl rfl (fun hdue => hdue) rfl rfl
  | reject hx _ => exact h.goes hx rfl rfl rfl (fun hdue => Actor.due_failing hdue _) rfl rfl
  | fault hjob => exact h.goes rfl hjob rfl rfl (fun hdue => Actor.due_failing hdue _) rfl rfl
  | @record a job now result applied rows hx hrows =>
      exact h.writes (y := .recorded job) hinv hx rfl rfl rfl
        (fun hdue => Actor.due_failing hdue job) rfl hrows rfl rfl
  | recordFault hx hrows =>
      exact h.writes hinv hx rfl rfl rfl (fun hdue => Actor.due_failing hdue _) rfl hrows rfl rfl
  | recordFailed hx hrows =>
      exact h.moved rfl rfl (.write hinv (by rw [hx]; rfl) hrows) (h.locked.write hrows)
        (.of_idle rfl rfl)
  | loseRequest id => exact h.of_eq rfl rfl
  | execute reply hid => exact h.of_eq rfl rfl
  | loseReply id => exact h.of_eq rfl rfl

/-! ### Every step is a write of the store or none -/

/-- What a commit publishes, by whom it is done. -/
private theorem store_commit {s : Queue} (h : Forms s) (hinv : Inv s) {a : ActorId} {id : JobId}
    (hid : (s.actors a).locked? = some id) :
    committed? (s.settleRows a id true) = committed? s.rows ∨
      AtomicStep (committed? s.rows) (committed? (s.settleRows a id true)) := by
  have hform := h.actors a
  have hcommit : ∀ {committed version}, s.rows.lookup id = some ⟨committed, .held a version⟩ →
      committed? (s.settleRows a id true) =
        Function.update (committed? s.rows) id (some version) := by
    intro committed version hrow
    rw [settleRows_applied hrow, committed?_insert]
  cases hx : s.actors a with
  | inserted key =>
      rw [hx] at hform hid
      cases hid
      obtain ⟨job, hrow, hpending⟩ := hform
      have hkey : job.id = id := hinv.keyed.ids hrow (by simp [LockRow.versions])
      subst hkey
      rw [hcommit hrow]
      refine .inr (.enqueue job hpending (committed?_of_lookup hrow) ?_)
      -- The committed row of another job has another pair, by the unique constraint.
      intro other version hother hpair
      obtain ⟨row, hlookup, hcommitted⟩ := Option.bind_eq_some_iff.mp hother
      have hmem : version ∈ row.versions := by
        obtain ⟨committed, lock⟩ := row
        cases hcommitted
        cases lock <;> simp [LockRow.versions]
      have heq : other = job.id :=
        hinv.keyed.unique hlookup hrow hmem (by simp [LockRow.versions]) hpair
      rw [heq, committed?_of_lookup hrow] at hother
      cases hother
  | cancelled key =>
      rw [hx] at hform hid
      cases hid
      obtain ⟨old, now, hrow, hpending⟩ := hform
      rw [hcommit hrow]
      exact .inr (.cancel now (committed?_of_lookup hrow) hpending)
  | selected job =>
      rw [hx] at hform hid
      cases hid
      rw [hcommit hform.1, ← committed?_of_lookup hform.1, Function.update_eq_self]
      exact .inl rfl
  | claiming job =>
      rw [hx] at hform hid
      cases hid
      obtain ⟨old, now, hrow, hpending⟩ := hform
      rw [hcommit hrow]
      exact .inr (.claim now (committed?_of_lookup hrow) hpending)
  | _ =>
      rw [hx] at hid
      cases hid

theorem store_settle {s : Queue} (h : Forms s) (hinv : Inv s) {a : ActorId} {id : JobId}
    (hid : (s.actors a).locked? = some id) (applied : Bool) :
    committed? (s.settleRows a id applied) = committed? s.rows ∨
      AtomicStep (committed? s.rows) (committed? (s.settleRows a id applied)) := by
  cases applied with
  | true => exact store_commit h hinv hid
  | false =>
      obtain ⟨committed, version, hrow⟩ := Actor.locked_held (h.actors a) hid
      exact .inl (committed?_rollback hrow)

theorem store_abandon {s : Queue} (h : Forms s) (a : ActorId) :
    committed? (s.abandon a).rows = committed? s.rows := by
  simp only [Queue.abandon]
  split
  · rename_i id hid
    obtain ⟨committed, version, hrow⟩ := Actor.locked_held (h.actors a) hid
    exact committed?_rollback hrow
  · rfl

/-- `UpdateJobStatus` by the worker that holds the job. -/
theorem store_write {s : Queue} (h : Forms s) {a : ActorId} {x : Actor} {job : LiveJob} {now : Nat}
    {status : JobStatus} {result : Json} {applied : Bool} {rows : LiveJobs} (hx : s.actors a = x)
    (hjob : x.job? = some job)
    (hwrite : s.updateJobStatus job.id now status result applied = some rows)
    (hstep : ∀ row, committed? s.rows job.id = some row → x.due row.status = true →
      AtomicStep (committed? s.rows)
        (Function.update (committed? s.rows) job.id (some (row.finish now status result)))) :
    committed? rows = committed? s.rows ∨ AtomicStep (committed? s.rows) (committed? rows) := by
  unfold Queue.updateJobStatus at hwrite
  split at hwrite
  · obtain ⟨row, hrow, rfl⟩ := autocommit_eq_some hwrite
    obtain ⟨held, hheld, hdue⟩ := h.held hx hjob
    rw [hrow] at hheld
    cases hheld
    rw [committed?_insert]
    exact .inr (hstep row (committed?_of_lookup hrow) hdue)
  · cases hwrite
    exact .inl rfl

theorem store_effect {s s' : Queue} {act : Action} (h : Forms s) (hinv : Inv s)
    (heffect : s.Effect act s') :
    committed? s'.rows = committed? s.rows ∨
      AtomicStep (committed? s.rows) (committed? s'.rows) := by
  cases heffect with
  | insert _ _ hrows => exact .inl (committed?_insertNew hrows)
  | cancel hrows =>
      obtain ⟨mid, hacquire, hrewrite⟩ := Option.bind_eq_some_iff.mp hrows
      exact .inl ((committed?_rewrite hrewrite).trans (committed?_acquire hacquire))
  | select _ hrows => exact .inl (committed?_acquire hrows)
  | claim _ hrows => exact .inl (committed?_rewrite hrows)
  | settle hid applied => exact store_settle h hinv hid applied
  | commitCancel hx applied => exact store_settle h hinv (by rw [hx]; rfl) applied
  | commitClaim hx => exact store_settle h hinv (by rw [hx]; rfl) true
  | abandon a => exact .inl (store_abandon h a)
  | record hx hrows =>
      exact store_write h hx rfl hrows fun row hrow hdue =>
        .succeed _ _ hrow (by simpa [Actor.due] using hdue)
  | recordFault hx hrows =>
      exact store_write h hx rfl hrows fun row hrow hdue =>
        .succeed _ _ hrow (by simpa [Actor.due] using hdue)
  | recordFailed hx hrows =>
      exact store_write h hx rfl hrows fun row hrow hdue =>
        .fail _ _ hrow (by simpa [Actor.due] using hdue)
  | _ => exact .inl rfl

/-! ### Runs -/

/-- The invariants of the queue that the refinement needs. -/
structure Reached (s : Queue) : Prop where
  inv : Inv s
  forms : Forms s

theorem reached_step {s s' : Queue} {act : Action} (h : Reached s) (hstep : s.step act = some s') :
    Reached s' where
  inv := inv_step h.inv hstep
  forms := h.forms.effect h.inv (Queue.effect_of_step hstep)

theorem reached_run {actions : List Action} {s : Queue} (h : Queue.run actions = some s) :
    Reached s :=
  runFrom_invariant reached_step ⟨inv_empty, forms_empty⟩ h

theorem Reached.simulates {s s' : Queue} {actions : List Action} (h : Reached s)
    (hrun : runFrom Queue.step s actions = some s') :
    AtomicRun (committed? s.rows) (committed? s'.rows) :=
  runFrom_simulates reached_step
    (fun hs hstep => store_effect hs.forms hs.inv (Queue.effect_of_step hstep)) h hrun

/-- Whatever the interleaving, the committed rows have changed as if each write had been done at once,
one after another, from an empty table, and the next action leaves them alone or does one write. -/
theorem queue_refines_store (actions : List Action) (s : Queue) (h : Queue.run actions = some s) :
    AtomicRun (fun _ => none) (committed? s.rows) ∧
    ∀ action s', s.step action = some s' →
      committed? s'.rows = committed? s.rows ∨
        AtomicStep (committed? s.rows) (committed? s'.rows) := by
  have hreached := reached_run h
  refine ⟨Reached.simulates ⟨inv_empty, forms_empty⟩ h, fun action s' hstep => ?_⟩
  exact store_effect hreached.forms hreached.inv (Queue.effect_of_step hstep)

/-- The race for one job ends in a store of one claimed job, and the worker's last write is one of the
store. -/
theorem queue_refines_store_of_race : ∃ s s', Queue.run (race ++ [.timeout 2]) = some s ∧
    s.step (.writeFailed 2 9 .null .done) = some s' ∧
    (committed? s.rows 42).map LiveJob.status = some .claimed ∧
    AtomicRun (fun _ => none) (committed? s.rows) ∧
    AtomicStep (committed? s.rows) (committed? s'.rows) := by
  have hsome : (Queue.run (race ++ [.timeout 2])).isSome = true := rfl
  have hrun := (Option.some_get hsome).symm
  have hstep : ((Queue.run (race ++ [.timeout 2])).get hsome).step (.writeFailed 2 9 .null .done) =
      some _ := rfl
  obtain ⟨hatomic, hnext⟩ := queue_refines_store _ _ hrun
  refine ⟨_, _, hrun, hstep, rfl, hatomic, (hnext _ _ hstep).resolve_left fun hsame => ?_⟩
  have hstatus := congrArg (Option.map LiveJob.status) (congrFun hsame 42)
  cases hstatus

/-- A job that can be read stays, with the order it is for, and its status only ever goes on: from
`PENDING` to `CANCELLED`, or to `CLAIMED` and then to `SUCCESS` or `FAILED`, and from `SUCCESS` to
`FAILED`. -/
theorem job_evolves (first rest : List Action) (s s' : Queue) (hs : Queue.run first = some s)
    (hs' : runFrom Queue.step s rest = some s') (id : JobId) (job : LiveJob)
    (hjob : committed? s.rows id = some job) :
    ∃ job', committed? s'.rows id = some job' ∧ Evolves job job' :=
  ((reached_run hs).simulates hs').evolves hjob

/-- The claimed job of the race, after its worker has waited in vain for the response. -/
theorem job_evolves_of_race : ∃ s s' job job', Queue.run race = some s ∧
    runFrom Queue.step s [.timeout 2, .writeFailed 2 9 .null .done] = some s' ∧
    committed? s.rows 42 = some job ∧ job.status = .claimed ∧
    committed? s'.rows 42 = some job' ∧ job'.status = .failed ∧ Evolves job job' := by
  have hsome : (Queue.run race).isSome = true := rfl
  have hrun : Queue.run race = some ((Queue.run race).get hsome) := (Option.some_get hsome).symm
  have hrest : runFrom Queue.step ((Queue.run race).get hsome)
      [.timeout 2, .writeFailed 2 9 .null .done] = some _ := rfl
  obtain ⟨job', hjob', hevolves⟩ := job_evolves race _ _ _ hrun hrest 42 _ rfl
  refine ⟨_, _, _, job', hrun, hrest, rfl, rfl, hjob', ?_, hevolves⟩
  exact Option.some.inj hjob' ▸ rfl

end SphereFx.Live
