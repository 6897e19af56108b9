import SphereFx.Live.Refinement

/-!
# Claims whose worker is gone

A claim has no lease: a worker that crashes, or whose commit reports an error although it was applied,
leaves a claimed job behind. Nothing looks for such jobs. Only the worker that holds a job writes its
status, so the claim can be resolved as long as there is one and never afterwards, and the pair of the
job is refused for ever.
-/

namespace SphereFx.Live

open LockTable

/-- Some worker holds the job. -/
def Held (s : Queue) (id : JobId) : Prop := ∃ a job, (s.actors a).job? = some job ∧ job.id = id

/-- Some run from here on changes the claimed status. -/
def Resolvable (s : Queue) (id : JobId) : Prop :=
  ∃ rest s' job, runFrom Queue.step s rest = some s' ∧ committed? s'.rows id = some job ∧
    job.status ≠ .claimed

/-- The job is stored as claimed and no worker holds it. -/
structure Abandoned (s : Queue) (id : JobId) (job : LiveJob) : Prop where
  row : s.rows.lookup id = some ⟨some job, .free⟩
  claimed : job.status = .claimed
  unheld : ¬ Held s id

/-- The requests that were sent for a signal and an account. -/
def Queue.sentFor (s : Queue) (pair : Nat × Nat) : List Post :=
  s.posts.filter fun post => post.pair = pair

theorem Forms.free_of_claimed {s : Queue} (h : Forms s) {id : JobId} {job : LiveJob}
    (hjob : committed? s.rows id = some job) (hclaimed : job.status = .claimed) :
    s.rows.lookup id = some ⟨some job, .free⟩ := by
  obtain ⟨⟨committed, lock⟩, hrow, hcommitted⟩ := Option.bind_eq_some_iff.mp hjob
  cases hcommitted
  cases lock with
  | free => exact hrow
  | held owner version =>
      rw [h.locked.pending hrow] at hclaimed
      cases hclaimed

private theorem hasActiveJob_of_committed {s : Queue} {id : JobId} {job : LiveJob}
    (hjob : committed? s.rows id = some job) (hactive : job.isActive = true) :
    s.hasActiveJob job.signalId job.accountId = true := by
  obtain ⟨row, hrow, hcommitted⟩ := Option.bind_eq_some_iff.mp hjob
  refine List.any_eq_true.mpr ⟨⟨id, row⟩, AList.mem_lookup_iff.mp hrow, ?_⟩
  show row.committed.any _ = true
  rw [hcommitted]
  simpa [LiveJob.pair] using hactive

/-! ### Every step leaves an abandoned claim -/

theorem Abandoned.ne_of_held {s : Queue} {id : JobId} {job : LiveJob} (h : Abandoned s id job)
    {a : ActorId} {other : LiveJob} (hother : (s.actors a).job? = some other) : id ≠ other.id :=
  fun hid => h.unheld ⟨a, other, hother, hid.symm⟩

/-- An actor moves, and holds nothing afterwards that it did not hold or had locked. -/
theorem Abandoned.moved {s s' : Queue} {id : JobId} {job : LiveJob} (h : Abandoned s id job)
    {a : ActorId} {x : Actor} (hrow : s'.rows.lookup id = s.rows.lookup id)
    (hactors : s'.actors = Function.update s.actors a x)
    (hx : ∀ other, x.job? = some other → id ≠ other.id) : Abandoned s' id job where
  row := hrow.trans h.row
  claimed := h.claimed
  unheld := by
    rintro ⟨b, other, hother, hid⟩
    rw [hactors] at hother
    by_cases hb : b = a
    · subst hb
      rw [Function.update_self] at hother
      exact hx other hother hid.symm
    · rw [Function.update_of_ne hb] at hother
      exact h.unheld ⟨b, other, hother, hid⟩

theorem Abandoned.of_eq {s s' : Queue} {id : JobId} {job : LiveJob} (h : Abandoned s id job)
    (hrows : s'.rows = s.rows) (hactors : s'.actors = s.actors) : Abandoned s' id job := by
  refine ⟨hrows ▸ h.row, h.claimed, ?_⟩
  rintro ⟨b, other, hother, hid⟩
  rw [hactors] at hother
  exact h.unheld ⟨b, other, hother, hid⟩

theorem Abandoned.goes {s s' : Queue} {id : JobId} {job : LiveJob} (h : Abandoned s id job)
    {a : ActorId} {x : Actor} {other : LiveJob} (hother : (s.actors a).job? = some other)
    (hx : x.job? = some other) (hrows : s'.rows = s.rows)
    (hactors : s'.actors = Function.update s.actors a x) : Abandoned s' id job := by
  refine h.moved (congrArg (fun rows => AList.lookup id rows) hrows) hactors ?_
  intro held hheld
  rw [hx] at hheld
  cases hheld
  exact h.ne_of_held hother

theorem Abandoned.lookup_session {s : Queue} {id : JobId} {job : LiveJob} (h : Abandoned s id job)
    {a : ActorId} {rows : LiveJobs} (hstep : SessionStep a s.rows rows) :
    rows.lookup id = s.rows.lookup id :=
  hstep.settled h.row (by simp [LiveJob.isPending, h.claimed])

theorem Abandoned.lookup_write {s : Queue} {id : JobId} {job : LiveJob} (h : Abandoned s id job)
    {a : ActorId} {other : LiveJob} (hother : (s.actors a).job? = some other) {now : Nat}
    {status : JobStatus} {result : Json} {applied : Bool} {rows : LiveJobs}
    (hwrite : s.updateJobStatus other.id now status result applied = some rows) :
    rows.lookup id = s.rows.lookup id := by
  unfold Queue.updateJobStatus at hwrite
  split at hwrite
  · obtain ⟨row, -, rfl⟩ := autocommit_eq_some hwrite
    exact AList.lookup_insert_ne (h.ne_of_held hother)
  · cases hwrite
    rfl

theorem Abandoned.effect {s s' : Queue} {act : Action} (hs : Reached s) {id : JobId} {job : LiveJob}
    (h : Abandoned s id job) (heffect : s.Effect act s') : Abandoned s' id job := by
  have hnothing : ∀ {x : Actor}, x.job? = none → ∀ other, x.job? = some other → id ≠ other.id := by
    intro x hx other hother
    rw [hx] at hother
    cases hother
  cases heffect with
  | stay => exact h
  | move a x _ hjob => exact h.moved rfl rfl (hnothing hjob)
  | insert _ _ hrows =>
      refine h.moved ?_ rfl (hnothing rfl)
      obtain ⟨hnone, rfl⟩ := insertNew_eq_some hrows
      refine AList.lookup_insert_ne ?_
      intro hid
      rw [← hid, h.row] at hnone
      cases hnone
  | cancel hrows =>
      exact h.moved (h.lookup_session (cancelUpdate_spec hrows).1) rfl (hnothing rfl)
  | select hjob hrows =>
      exact h.moved (h.lookup_session (claimSelect_spec hs.inv.keyed hjob hrows).1) rfl (hnothing rfl)
  | claim hx hrows =>
      exact h.moved (h.lookup_session (claimUpdate_spec (hx ▸ hs.inv.locks _) hrows).1) rfl
        (hnothing rfl)
  | settle hid applied =>
      obtain ⟨committed, version, hrow⟩ := (hs.inv.locks _).held hid
      exact h.moved (h.lookup_session (settleRows_session hrow applied)) rfl (hnothing rfl)
  | commitCancel hx applied =>
      obtain ⟨committed, version, hrow⟩ := (hs.inv.locks _).held (by rw [hx]; rfl)
      exact h.moved (h.lookup_session (settleRows_session hrow applied)) rfl (hnothing rfl)
  | @commitClaim a claimed hx =>
      -- The job it will hold was locked by it, and the abandoned row is not locked.
      have hlocked : (s.actors a).locked? = some claimed.id := by rw [hx]; rfl
      obtain ⟨committed, version, hrow⟩ := (hs.inv.locks a).held hlocked
      refine h.moved (h.lookup_session (settleRows_session hrow true)) rfl ?_
      intro other hother hid
      cases hother
      rw [← hid, h.row] at hrow
      cases hrow
  | abandon a => exact h.moved (h.lookup_session (abandon_session hs.inv a)) rfl (hnothing rfl)
  | giveUp hx => exact h.goes (by rw [hx]; rfl) rfl rfl rfl
  | post hx => exact h.goes (by rw [hx]; rfl) (x := .awaiting _) rfl rfl rfl
  | answer hx _ => exact h.goes (by rw [hx]; rfl) (x := .answered _) rfl rfl rfl
  | reject hx _ => exact h.goes (by rw [hx]; rfl) (x := .failing _) rfl rfl rfl
  | fault hjob => exact h.goes hjob (x := .failing _) rfl rfl rfl
  | record hx hrows =>
      have hheld := (congrArg Actor.job? hx).trans rfl
      exact h.moved (h.lookup_write hheld hrows) rfl fun other hother => by
        cases hother
        exact h.ne_of_held hheld
  | recordFault hx hrows =>
      have hheld := (congrArg Actor.job? hx).trans rfl
      exact h.moved (h.lookup_write hheld hrows) rfl fun other hother => by
        cases hother
        exact h.ne_of_held hheld
  | recordFailed hx hrows =>
      exact h.moved (h.lookup_write ((congrArg Actor.job? hx).trans rfl) hrows) rfl (hnothing rfl)
  | loseRequest key => exact h.of_eq rfl rfl
  | execute reply hid => exact h.of_eq rfl rfl
  | loseReply key => exact h.of_eq rfl rfl

/-- No order is sent for the pair either, since only the worker of its one job could send it. -/
theorem Abandoned.sentFor {s s' : Queue} {act : Action} (hs : Reached s) {id : JobId} {job : LiveJob}
    (h : Abandoned s id job) (heffect : s.Effect act s') : s'.sentFor job.pair = s.sentFor job.pair := by
  cases heffect with
  | @post a other hx =>
      have hheld : (s.actors a).job? = some other := by rw [hx]; rfl
      have hpair : (Post.mk other.id other.signalId other.accountId).pair ≠ job.pair := by
        intro hpair
        obtain ⟨row, hrow, -, hother⟩ := hs.inv.holds hheld
        exact h.ne_of_held hheld (hs.inv.keyed.unique h.row hrow (by simp [LockRow.versions])
          (by simp [LockRow.versions]) (hpair.symm.trans hother.symm))
      exact List.filter_cons_of_neg (by simpa using hpair)
  | _ => rfl

theorem Abandoned.run {s s' : Queue} (hs : Reached s) {id : JobId} {job : LiveJob}
    (h : Abandoned s id job) {rest : List Action} (hrun : runFrom Queue.step s rest = some s') :
    Abandoned s' id job ∧ s'.sentFor job.pair = s.sentFor job.pair := by
  have hstep : ∀ {t act t'}, (Reached t ∧ Abandoned t id job ∧
      t.sentFor job.pair = s.sentFor job.pair) → Queue.step t act = some t' →
      (Reached t' ∧ Abandoned t' id job ∧ t'.sentFor job.pair = s.sentFor job.pair) := by
    intro t act t' ht hact
    have heffect := Queue.effect_of_step hact
    exact ⟨reached_step ht.1 hact, ht.2.1.effect ht.1 heffect,
      (ht.2.1.sentFor ht.1 heffect).trans ht.2.2⟩
  exact (runFrom_invariant hstep ⟨hs, h, rfl⟩ hrun).2

/-! ### A worker can always resolve its claim -/

/-- A worker that holds a job can go on to the deferred write. -/
private theorem exists_failing {s : Queue} {a : ActorId} {job : LiveJob}
    (hjob : (s.actors a).job? = some job) :
    ∃ actions s', runFrom Queue.step s actions = some s' ∧ s'.rows = s.rows ∧
      s'.actors a = .failing job := by
  have hself : (s.move a (.failing job)).actors a = .failing job := by
    simp only [Queue.move, Function.update_self]
  have hmove : ∀ act, s.step act = some (s.move a (.failing job)) →
      ∃ actions s', runFrom Queue.step s actions = some s' ∧ s'.rows = s.rows ∧
        s'.actors a = .failing job :=
    fun act hact => ⟨[act], _, Option.bind_eq_some_iff.mpr ⟨_, hact, rfl⟩, rfl, hself⟩
  have hfault : ∀ act, s.step act = some (s.fault a job) →
      ∃ actions s', runFrom Queue.step s actions = some s' ∧ s'.rows = s.rows ∧
        s'.actors a = .failing job :=
    fun act hact => ⟨[act], _, Option.bind_eq_some_iff.mpr ⟨_, hact, rfl⟩, rfl, hself⟩
  cases hx : s.actors a with
  | holding other =>
      rw [hx] at hjob
      cases hjob
      exact hmove (.refuse a) (by simp only [Queue.step, hx])
  | awaiting other =>
      rw [hx] at hjob
      cases hjob
      exact hfault (.timeout a) (by simp only [Queue.step, hx])
  | answered other =>
      rw [hx] at hjob
      cases hjob
      exact hfault (.panic a) (by simp only [Queue.step, hx])
  | recorded other =>
      rw [hx] at hjob
      cases hjob
      exact hfault (.panic a) (by simp only [Queue.step, hx])
  | failing other =>
      rw [hx] at hjob
      cases hjob
      exact ⟨[], s, rfl, rfl, hx⟩
  | _ =>
      rw [hx] at hjob
      cases hjob

private theorem resolvable_of_held {s : Queue} (hs : Reached s) {id : JobId} (h : Held s id) :
    Resolvable s id := by
  obtain ⟨a, job, hjob, rfl⟩ := h
  obtain ⟨actions, mid, hmid, hrows, hfailing⟩ := exists_failing hjob
  obtain ⟨row, hrow, -⟩ := hs.inv.holds hjob
  have hlookup : mid.rows.lookup job.id = some ⟨some row, .free⟩ := hrows ▸ hrow
  have hwrite : mid.updateJobStatus job.id 0 .failed .null true =
      some (mid.rows.insert job.id ⟨some (row.finish 0 .failed .null), .free⟩) := by
    simp only [Queue.updateJobStatus, if_true, autocommit, hlookup]
  refine ⟨actions ++ [.writeFailed a 0 .null .done],
    { mid.move a .idle with
      rows := mid.rows.insert job.id ⟨some (row.finish 0 .failed .null), .free⟩ },
    row.finish 0 .failed .null, ?_, committed?_of_lookup (AList.lookup_insert _), by simp⟩
  rw [runFrom_append, hmid, Option.bind_some, runFrom, Queue.step, hfailing]
  simp only [WriteOutcome.applied, hwrite]
  rfl

private theorem resolvable_iff_held {s : Queue} (hs : Reached s) {id : JobId} {job : LiveJob}
    (hjob : committed? s.rows id = some job) (hclaimed : job.status = .claimed) :
    Resolvable s id ↔ Held s id := by
  constructor
  · rintro ⟨rest, s', job', hrun, hjob', hstatus⟩
    by_contra hunheld
    have habandoned : Abandoned s id job := ⟨hs.forms.free_of_claimed hjob hclaimed, hclaimed, hunheld⟩
    obtain ⟨hlater, -⟩ := habandoned.run hs hrun
    rw [committed?_of_lookup hlater.row] at hjob'
    cases hjob'
    exact hstatus hlater.claimed
  · exact resolvable_of_held hs

/-- In every run, a claimed job without a worker stays so, its row as it is; nobody will send an order
for its pair, and every request to route the pair finds it active. As long as a worker holds the
job, and only so long, the claim can be resolved. -/
theorem abandoned_claim_stays (first : List Action) (s : Queue) (hs : Queue.run first = some s)
    (id : JobId) (job : LiveJob) (hjob : committed? s.rows id = some job)
    (hclaimed : job.status = .claimed) :
    (Resolvable s id ↔ Held s id) ∧
      (¬ Held s id → ∀ rest s', runFrom Queue.step s rest = some s' →
        committed? s'.rows id = some job ∧ ¬ Held s' id ∧
          s'.sentFor job.pair = s.sentFor job.pair ∧
          s'.hasActiveJob job.signalId job.accountId = true) := by
  have hreached := reached_run hs
  refine ⟨resolvable_iff_held hreached hjob hclaimed, fun hunheld rest s' hrun => ?_⟩
  have habandoned : Abandoned s id job :=
    ⟨hreached.forms.free_of_claimed hjob hclaimed, hclaimed, hunheld⟩
  obtain ⟨hlater, hsent⟩ := habandoned.run hreached hrun
  have hjob' := committed?_of_lookup hlater.row
  refine ⟨hjob', hlater.unheld, hsent, hasActiveJob_of_committed hjob' ?_⟩
  simp [LiveJob.isActive, hclaimed]

private theorem not_held_abandon {s : Queue} (hs : Reached s) {a : ActorId} {job : LiveJob}
    (hjob : (s.actors a).job? = some job) : ¬ Held (s.abandon a) job.id := by
  rintro ⟨b, other, hother, hid⟩
  have hactors : (s.abandon a).actors = Function.update s.actors a .idle := rfl
  rw [hactors] at hother
  by_cases hb : b = a
  · subst hb
    rw [Function.update_self] at hother
    cases hother
  · rw [Function.update_of_ne hb] at hother
    exact hb (hs.inv.exclusive hother hjob hid)

/-- The worker of the race crashes after it has sent the order. -/
theorem abandoned_claim_of_race : ∃ s job, Queue.run (race ++ [.crash 2]) = some s ∧
    committed? s.rows 42 = some job ∧ job.status = .claimed ∧ ¬ Resolvable s 42 := by
  have hsome : (Queue.run race).isSome = true := rfl
  have hrace : Queue.run race = some ((Queue.run race).get hsome) := (Option.some_get hsome).symm
  have hrun : Queue.run (race ++ [.crash 2]) = some (((Queue.run race).get hsome).abandon 2) :=
    (runFrom_append Queue.step Queue.empty race [.crash 2]).trans
      (congrArg (fun s => s.bind fun t => runFrom Queue.step t [.crash 2]) hrace)
  refine ⟨_, _, hrun, rfl, rfl, fun h => ?_⟩
  have hunheld := not_held_abandon (reached_run hrace) (a := 2) rfl
  exact hunheld ((abandoned_claim_stays _ _ hrun 42 _ rfl rfl).1.mp h)

end SphereFx.Live
