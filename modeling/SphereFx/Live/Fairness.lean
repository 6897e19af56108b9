import SphereFx.Live.QueueService
import SphereFx.Live.Refinement

/-!
# Who is claimed first

A claim takes the oldest job it can see. With any number of workers a job that waits, committed and
not locked, is therefore not overtaken by a younger one: every claim made meanwhile is of a job that
is at least as old. With one worker the jobs ahead become fewer with every poll, whatever the polls
end in, so the wait is bounded by their number.
-/

namespace SphereFx.Live

open LockTable

/-! ### No overtaking -/

/-- The job is committed, pending and not locked. -/
structure Waits (job : LiveJob) (s : Queue) : Prop where
  row : s.rows.lookup job.id = some ⟨some job, .free⟩
  pending : job.status = .pending

/-- The row a claim in progress has locked. -/
def Actor.chosen? : Actor → Option JobId
  | .selected job => some job.id
  | .claiming job => some job.id
  | _ => none

/-- No claim in progress is of a younger job. -/
def NoneYounger (job : LiveJob) (s : Queue) : Prop :=
  ∀ {a id row}, (s.actors a).chosen? = some id → committed? s.rows id = some row →
    row.createdAt ≤ job.createdAt

/-- Some worker has committed a claim of the job. -/
def Claimed (s : Queue) (id : JobId) : Prop :=
  ∃ row, committed? s.rows id = some row ∧ row.status.taken = true

theorem Waits.createdAt_le {job : LiveJob} {s : Queue} (h : Waits job s) {other : LiveJob}
    (holdest : s.isOldest other = true) : other.createdAt ≤ job.createdAt := by
  have hunlocked : (job.id, job) ∈ s.rows.unlocked := by
    refine List.mem_filterMap.mpr ⟨⟨job.id, ⟨some job, .free⟩⟩, AList.mem_lookup_iff.mp h.row, rfl⟩
  have hclaimable : job ∈ s.claimable :=
    List.mem_filter.mpr ⟨List.mem_map.mpr ⟨_, hunlocked, rfl⟩, (LiveJob.isPending_iff job).mpr h.pending⟩
  exact of_decide_eq_true (List.all_eq_true.mp holdest job hclaimable)

theorem Actor.Form.committed_of_chosen {s : Queue} {a : ActorId} {x : Actor} (h : x.Form s.rows a)
    {id : JobId} (hid : x.chosen? = some id) : ∃ row, committed? s.rows id = some row := by
  cases x <;> cases hid
  · exact ⟨_, committed?_of_lookup h.1⟩
  · obtain ⟨old, now, hrow, -⟩ := h
    exact ⟨old, committed?_of_lookup hrow⟩

theorem Reached.evolves_step {s s' : Queue} {act : Action} (h : Reached s)
    (hstep : s.step act = some s') {id : JobId} {row : LiveJob}
    (hrow : committed? s.rows id = some row) :
    ∃ row', committed? s'.rows id = some row' ∧ Evolves row row' := by
  rcases store_effect h.forms h.inv (Queue.effect_of_step hstep) with hsame | hnext
  · exact ⟨row, hsame ▸ hrow, .refl row⟩
  · exact hnext.evolves hrow

theorem Evolves.createdAt {job job' : LiveJob} (h : Evolves job job') :
    job'.createdAt = job.createdAt := congrArg (fun order => order.2.2.2.2.2) h.order

/-! ### What a step chooses -/

theorem chosen_of_update {s s' : Queue} {a b : ActorId} {x : Actor}
    (hactors : s'.actors = Function.update s.actors b x) (hx : x.chosen? = none) {id : JobId}
    (hid : (s'.actors a).chosen? = some id) : (s.actors a).chosen? = some id := by
  rw [hactors] at hid
  by_cases hab : a = b
  · rw [hab, Function.update_self, hx] at hid
    cases hid
  · rwa [Function.update_of_ne hab] at hid

private theorem chosen_of_select {s s' : Queue} (hs : Reached s) {a b : ActorId} {key id : JobId}
    (h : s.step (.claimSelect b key) = some s') (hid : (s'.actors a).chosen? = some id) :
    (s.actors a).chosen? = some id ∨
      ∃ row, committed? s.rows id = some row ∧ s.isOldest row = true := by
  simp only [Queue.step] at h
  split at h
  · rename_i row _ hrow
    split at h
    · rename_i holdest
      obtain ⟨rows, -, rfl⟩ := Option.map_eq_some_iff.mp h
      have hkey : row.id = key := by
        obtain ⟨found, hfound, hcommitted⟩ := Option.bind_eq_some_iff.mp hrow
        refine hs.inv.keyed.ids hfound ?_
        obtain ⟨committed, lock⟩ := found
        cases hcommitted
        cases lock <;> simp [LockRow.versions]
      simp only [Queue.move] at hid
      by_cases hab : a = b
      · rw [hab, Function.update_self] at hid
        cases hid
        exact .inr ⟨row, hkey ▸ hrow, holdest⟩
      · rw [Function.update_of_ne hab] at hid
        exact .inl hid
    · cases h
  · cases h

private theorem chosen_of_claimUpdate {s s' : Queue} {a b : ActorId} {now : Nat} {id : JobId}
    (h : s.step (.claimUpdate b now) = some s') (hid : (s'.actors a).chosen? = some id) :
    (s.actors a).chosen? = some id := by
  simp only [Queue.step] at h
  split at h
  · rename_i job hx
    obtain ⟨rows, -, rfl⟩ := Option.map_eq_some_iff.mp h
    simp only [Queue.move] at hid
    by_cases hab : a = b
    · rw [hab, Function.update_self] at hid
      rw [hab, hx]
      exact hid
    · rwa [Function.update_of_ne hab] at hid
  · cases h

/-- No other statement begins a claim. -/
private theorem chosen_of_other {s s' : Queue} {act : Action} (h : s.step act = some s')
    (hselect : ∀ b key, act ≠ .claimSelect b key) (hclaim : ∀ b now, act ≠ .claimUpdate b now)
    {a : ActorId} {id : JobId} (hid : (s'.actors a).chosen? = some id) :
    (s.actors a).chosen? = some id := by
  cases act with
  | claimSelect b key => exact absurd rfl (hselect b key)
  | claimUpdate b now => exact absurd rfl (hclaim b now)
  | commit b outcome =>
      simp only [Queue.step] at h
      split at h <;> cases h
      · exact chosen_of_update rfl rfl hid
      · exact chosen_of_update rfl rfl hid
      · refine chosen_of_update rfl ?_ hid
        split <;> rfl
  | writeSuccess b now result outcome =>
      simp only [Queue.step] at h
      split at h
      · obtain ⟨rows, -, hs'⟩ := Option.map_eq_some_iff.mp h
        split at hs' <;> subst hs'
        · exact chosen_of_update rfl rfl hid
        · exact chosen_of_update rfl rfl hid
      · cases h
  | enqueue | cancelUpdate | writeFailed =>
      simp only [Queue.step] at h
      repeat' split at h
      all_goals first
        | obtain ⟨rows, -, rfl⟩ := Option.map_eq_some_iff.mp h
        | cases h
      all_goals exact chosen_of_update rfl rfl hid
  | _ =>
      simp only [Queue.step] at h
      repeat' split at h
      all_goals cases h
      all_goals first
        | exact hid
        | exact chosen_of_update rfl rfl hid

private theorem chosen_step {s s' : Queue} (hs : Reached s) {act : Action} (h : s.step act = some s')
    {a : ActorId} {id : JobId} (hid : (s'.actors a).chosen? = some id) :
    (s.actors a).chosen? = some id ∨
      ∃ row, committed? s.rows id = some row ∧ s.isOldest row = true := by
  by_cases hselect : ∃ b key, act = .claimSelect b key
  · obtain ⟨b, key, rfl⟩ := hselect
    exact chosen_of_select hs h hid
  by_cases hclaim : ∃ b now, act = .claimUpdate b now
  · obtain ⟨b, now, rfl⟩ := hclaim
    exact .inl (chosen_of_claimUpdate h hid)
  refine .inl (chosen_of_other h ?_ ?_ hid)
  · exact fun b key hact => hselect ⟨b, key, hact⟩
  · exact fun b now hact => hclaim ⟨b, now, hact⟩

private theorem noneYounger_step {s s' : Queue} (hs : Reached s) {job : LiveJob} (hwaits : Waits job s)
    (h : NoneYounger job s) {act : Action} (hstep : s.step act = some s') : NoneYounger job s' := by
  intro a id row hid hrow
  have hle : ∀ old, committed? s.rows id = some old → old.createdAt ≤ job.createdAt →
      row.createdAt ≤ job.createdAt := by
    intro old hold hage
    obtain ⟨row', hrow', hevolves⟩ := hs.evolves_step hstep hold
    rw [hrow] at hrow'
    cases hrow'
    rwa [hevolves.createdAt]
  rcases chosen_step hs hstep hid with hchosen | ⟨old, hold, holdest⟩
  · obtain ⟨old, hold⟩ := (hs.forms.actors a).committed_of_chosen hchosen
    exact hle old hold (h hchosen hold)
  · exact hle old hold (hwaits.createdAt_le holdest)

/-! ### Which jobs become claimed -/

theorem claimed_of_write {s : Queue} (hs : Reached s) {a : ActorId} {job : LiveJob}
    (hjob : (s.actors a).job? = some job) {now : Nat} {status : JobStatus} {result : Json}
    {applied : Bool} {rows : LiveJobs} {id : JobId}
    (hwrite : s.updateJobStatus job.id now status result applied = some rows)
    (hid : ∃ row, committed? rows id = some row ∧ row.status.taken = true) : Claimed s id := by
  unfold Queue.updateJobStatus at hwrite
  split at hwrite
  · obtain ⟨row, hrow, rfl⟩ := autocommit_eq_some hwrite
    by_cases hkey : id = job.id
    · obtain ⟨held, hheld, htaken, -⟩ := hs.inv.holds hjob
      exact ⟨held, hkey ▸ committed?_of_lookup hheld, htaken⟩
    · obtain ⟨other, hother, htaken⟩ := hid
      rw [committed?_insert, Function.update_of_ne hkey] at hother
      exact ⟨other, hother, htaken⟩
  · cases hwrite
    exact hid

/-- A commit makes a job claimed only when a claim of it was in progress. -/
theorem claimed_of_settle {s : Queue} (hs : Reached s) {a : ActorId} {key id : JobId}
    (hkey : (s.actors a).locked? = some key) {applied : Bool}
    (hid : ∃ row, committed? (s.settleRows a key applied) id = some row ∧ row.status.taken = true) :
    Claimed s id ∨ (s.actors a).chosen? = some id := by
  obtain ⟨committed, version, hrow⟩ := Actor.locked_held (hs.forms.actors a) hkey
  obtain ⟨row, hcommitted, htaken⟩ := hid
  cases applied with
  | false =>
      have hsame : committed? (s.settleRows a key false) = committed? s.rows := committed?_rollback hrow
      exact .inl ⟨row, hsame ▸ hcommitted, htaken⟩
  | true =>
      rw [settleRows_applied hrow, committed?_insert] at hcommitted
      by_cases hne : id = key
      · rw [hne, Function.update_self] at hcommitted
        cases hcommitted
        have hform := hs.forms.actors a
        cases hx : s.actors a with
        | inserted _ =>
            rw [hx] at hform hkey
            cases hkey
            obtain ⟨job, hjob, hpending⟩ := hform
            rw [hrow] at hjob
            cases hjob
            rw [hpending] at htaken
            cases htaken
        | cancelled _ =>
            rw [hx] at hform hkey
            cases hkey
            obtain ⟨old, now, hold, -⟩ := hform
            rw [hrow] at hold
            cases hold
            cases htaken
        | selected job =>
            rw [hx] at hkey
            exact .inr (hne ▸ hkey)
        | claiming job =>
            rw [hx] at hkey
            exact .inr (hne ▸ hkey)
        | _ =>
            rw [hx] at hkey
            cases hkey
      · rw [Function.update_of_ne hne] at hcommitted
        exact .inl ⟨row, hcommitted, htaken⟩

private theorem claimed_effect {s s' : Queue} {act : Action} (hs : Reached s)
    (heffect : s.Effect act s') {id : JobId} (hid : Claimed s' id) :
    Claimed s id ∨ ∃ a, (s.actors a).chosen? = some id := by
  have hsame : committed? s'.rows = committed? s.rows → Claimed s id := by
    rintro heq
    obtain ⟨row, hrow, htaken⟩ := hid
    exact ⟨row, heq ▸ hrow, htaken⟩
  cases heffect with
  | insert _ _ hrows => exact .inl (hsame (committed?_insertNew hrows))
  | cancel hrows =>
      obtain ⟨mid, hacquire, hrewrite⟩ := Option.bind_eq_some_iff.mp hrows
      exact .inl (hsame ((committed?_rewrite hrewrite).trans (committed?_acquire hacquire)))
  | select _ hrows => exact .inl (hsame (committed?_acquire hrows))
  | claim _ hrows => exact .inl (hsame (committed?_rewrite hrows))
  | settle hkey applied => exact (claimed_of_settle hs hkey hid).imp_right fun h => ⟨_, h⟩
  | commitCancel hx applied =>
      exact (claimed_of_settle hs (by rw [hx]; rfl) hid).imp_right fun h => ⟨_, h⟩
  | commitClaim hx =>
      exact (claimed_of_settle hs (by rw [hx]; rfl) hid).imp_right fun h => ⟨_, h⟩
  | abandon a => exact .inl (hsame (store_abandon hs.forms a))
  | record hx hrows => exact .inl (claimed_of_write hs (by rw [hx]; rfl) hrows hid)
  | recordFault hx hrows => exact .inl (claimed_of_write hs (by rw [hx]; rfl) hrows hid)
  | recordFailed hx hrows => exact .inl (claimed_of_write hs (by rw [hx]; rfl) hrows hid)
  | _ => exact .inl (hsame rfl)

/-- While a job waits, no younger one is claimed: whatever the workers, the API and the bridge do in
the meantime, a job that is claimed afterwards and was not before is at least as old. -/
theorem none_overtaken (first rest : List Action) (s s' : Queue) (job : LiveJob)
    (hs : Queue.run first = some s) (hwaits : RunWithin Queue.step (Waits job) s rest s')
    (hnone : NoneYounger job s) (id : JobId) (row : LiveJob)
    (hrow : committed? s'.rows id = some row) (htaken : row.status.taken = true) :
    Claimed s id ∨ row.createdAt ≤ job.createdAt := by
  have hstep : ∀ {t act t'}, (Reached t ∧ NoneYounger job t ∧ ∀ key row, committed? t.rows key =
      some row → row.status.taken = true → Claimed s key ∨ row.createdAt ≤ job.createdAt) →
      Waits job t → Queue.step t act = some t' → Reached t' ∧ NoneYounger job t' ∧
        ∀ key row, committed? t'.rows key = some row → row.status.taken = true →
          Claimed s key ∨ row.createdAt ≤ job.createdAt := by
    rintro t act t' ⟨ht, hyounger, hclaimed⟩ hwait hact
    refine ⟨reached_step ht hact, noneYounger_step ht hwait hyounger hact, ?_⟩
    intro key row' hrow' htaken'
    have hage : ∀ old, committed? t.rows key = some old → row'.createdAt = old.createdAt := by
      intro old hold
      obtain ⟨next, hnext, hevolves⟩ := ht.evolves_step hact hold
      rw [hrow'] at hnext
      cases hnext
      exact hevolves.createdAt
    rcases claimed_effect ht (Queue.effect_of_step hact) ⟨row', hrow', htaken'⟩ with
      ⟨old, hold, holdTaken⟩ | ⟨a, hchosen⟩
    · rw [hage old hold]
      exact hclaimed key old hold holdTaken
    · obtain ⟨old, hold⟩ := (ht.forms.actors a).committed_of_chosen hchosen
      rw [hage old hold]
      exact .inr (hyounger hchosen hold)
  have hreached := reached_run hs
  exact (hwaits.invariant hstep ⟨hreached, hnone, fun key row hkey h => .inl ⟨row, hkey, h⟩⟩).2.2
    id row hrow htaken

/-- Two jobs for one account, the second one younger. -/
def twoJobs : List Action :=
  [.routeCheck 1 7 3 9, .enqueue 1 41 1 .null 5, .commit 1 .done,
    .routeCheck 1 8 3 9, .enqueue 1 42 1 .null 6, .commit 1 .done]

/-- The older one is claimed while the younger one waits. -/
theorem none_overtaken_of_two : ∃ s s' job row, Queue.run twoJobs = some s ∧
    RunWithin Queue.step (Waits job) s
      [.beginTx 2, .claimSelect 2 41, .claimUpdate 2 7, .commit 2 .done] s' ∧
    job.id = 42 ∧ committed? s'.rows 41 = some row ∧ row.status.taken = true ∧
    (Claimed s 41 ∨ row.createdAt ≤ job.createdAt) := by
  have hsome : (Queue.run twoJobs).isSome = true := rfl
  have hrun : Queue.run twoJobs = some ((Queue.run twoJobs).get hsome) :=
    (Option.some_get hsome).symm
  have hidle : ∀ a, ((Queue.run twoJobs).get hsome).actors a = .idle := by
    intro a
    by_cases ha : a = 1
    · subst ha
      rfl
    · iterate 6 refine (Function.update_of_ne ha _ _).trans ?_
      rfl
  have hnone : NoneYounger (.enqueued 42 8 3 9 1 .null 6) ((Queue.run twoJobs).get hsome) := by
    intro a id row hid
    rw [hidle a] at hid
    cases hid
  have hwaits : RunWithin Queue.step (Waits (.enqueued 42 8 3 9 1 .null 6))
      ((Queue.run twoJobs).get hsome)
      [.beginTx 2, .claimSelect 2 41, .claimUpdate 2 7, .commit 2 .done] _ :=
    .cons ⟨rfl, rfl⟩ rfl (.cons ⟨rfl, rfl⟩ rfl (.cons ⟨rfl, rfl⟩ rfl (.cons ⟨rfl, rfl⟩ rfl
      (.nil ⟨rfl, rfl⟩))))
  exact ⟨_, _, _, _, hrun, hwaits, rfl, rfl, rfl,
    none_overtaken _ _ _ _ _ hrun hwaits hnone 41 _ rfl rfl⟩

/-! ### A bounded wait -/

/-- What happens to the table between the polls of one worker: the API's requests. -/
inductive PollEvent where
  | poll (cfg : Config) (env : Env)
  | enqueue (id : JobId) (signalId accountId userId : Nat) (lotSize : ℚ) (payload : Json) (now : Nat)
  | cancel (id : JobId) (now : Nat)

def pollStep (jobs : JobTable) : PollEvent → JobTable
  | .poll cfg env => (processNextJob cfg env jobs).2
  | .enqueue id signalId accountId userId lotSize payload now =>
      (enqueueJob (.enqueued id signalId accountId userId lotSize payload now) jobs).getD jobs
  | .cancel id now => (cancelJob id now jobs).2

/-- A poll whose claim meets no error of the database. -/
def PollEvent.claims : PollEvent → Bool
  | .poll _ env => env.claimFault.isNone
  | _ => false

/-- What is enqueued later is stored as younger. -/
def PollEvent.younger (createdAt : Nat) : PollEvent → Prop
  | .enqueue _ _ _ _ _ _ now => createdAt < now
  | _ => True

/-- The job is pending and was not created after the time. -/
def LiveJob.dueBy (createdAt : Nat) (job : LiveJob) : Bool :=
  job.isPending && job.createdAt ≤ createdAt

/-- How many jobs may be claimed before those that were created at that time are. -/
def ahead (createdAt : Nat) (jobs : JobTable) : Nat := jobs.rows.countP (LiveJob.dueBy createdAt)

private theorem oldest_of_selectNext {jobs : JobTable} {pick : JobId} {row : LiveJob}
    (h : selectNext jobs pick = some row) {other : LiveJob} (hother : other ∈ jobs.rows)
    (hpending : other.isPending = true) : row.createdAt ≤ other.createdAt := by
  have hrow : row ∈ oldestPending jobs := by
    unfold selectNext at h
    cases hfind : (oldestPending jobs).find? fun job => job.id = pick with
    | some found =>
        rw [hfind] at h
        cases h
        exact List.mem_of_find?_eq_some hfind
    | none =>
        rw [hfind] at h
        exact List.mem_of_head? h
  have hall := (List.mem_filter.mp hrow).2
  exact of_decide_eq_true
    (List.all_eq_true.mp hall other (List.mem_filter.mpr ⟨hother, hpending⟩))

theorem ahead_update_le {createdAt : Nat} {jobs : JobTable} {id : JobId} {f : LiveJob → LiveJob}
    {hf : ∀ job, (f job).id = job.id} (hstatus : ∀ job, (f job).status ≠ .pending) :
    ahead createdAt (jobs.update id f hf) ≤ ahead createdAt jobs :=
  Table.countP_update_le fun job hdue => by simp [LiveJob.dueBy, LiveJob.isPending, hstatus] at hdue

theorem ahead_markFinished_le {createdAt : Nat} {jobs : JobTable} {id : JobId} {now : Nat}
    {status : JobStatus} {result : Json} (hstatus : status ≠ .pending) :
    ahead createdAt (markFinished jobs id now status result) ≤ ahead createdAt jobs :=
  ahead_update_le fun _ => hstatus

private theorem ahead_updateJobStatus_le {createdAt : Nat} {jobs : JobTable} {write : StatusWrite} {now : Nat}
    {id : JobId} {status : JobStatus} {result : Json} (hstatus : status ≠ .pending) :
    ahead createdAt (updateJobStatus write now id status result jobs).2 ≤ ahead createdAt jobs := by
  cases write with
  | done => exact ahead_markFinished_le hstatus
  | failed cause applied =>
      cases applied with
      | true => exact ahead_markFinished_le hstatus
      | false => exact Nat.le_refl _

private theorem ahead_processClaimed_le (createdAt : Nat) (cfg : Config) (env : Env) (job : LiveJob)
    (jobs : JobTable) :
    ahead createdAt (processClaimed cfg env job jobs).2 ≤ ahead createdAt jobs := by
  have hbody : ahead createdAt (processBody cfg env job jobs).2 ≤ ahead createdAt jobs := by
    rcases processBody_table cfg env job jobs with h | ⟨result, h⟩
    · rw [h]
    · rw [h]
      exact ahead_markFinished_le (by simp)
  unfold processClaimed
  split
  · exact Nat.le_refl _
  · simp only
    split
    · exact hbody
    · exact Nat.le_trans (ahead_updateJobStatus_le (by simp)) hbody

private theorem ahead_claim_lt {createdAt : Nat} {jobs : JobTable} {pick : JobId} {row : LiveJob}
    (hselect : selectNext jobs pick = some row) (now : Nat) (hahead : 0 < ahead createdAt jobs) :
    ahead createdAt (markClaimed jobs row.id now) < ahead createdAt jobs := by
  obtain ⟨due, hdue, hdueBy⟩ := List.countP_pos_iff.mp hahead
  obtain ⟨hmem, hpending⟩ := selectNext_mem hselect
  have hdueBy' : due.isPending = true ∧ due.createdAt ≤ createdAt := by
    simpa [LiveJob.dueBy] using hdueBy
  have holdest : row.createdAt ≤ due.createdAt := oldest_of_selectNext hselect hdue hdueBy'.1
  refine Table.countP_update_lt ?_ hmem rfl ?_
  · intro job
    simp [LiveJob.dueBy, LiveJob.isPending, LiveJob.claim]
  · have hage := Nat.le_trans holdest hdueBy'.2
    simp [LiveJob.dueBy, LiveJob.isPending, hpending, hage]

private theorem ahead_processNextJob_le (createdAt : Nat) (cfg : Config) (env : Env) (jobs : JobTable) :
    ahead createdAt (processNextJob cfg env jobs).2 ≤
      ahead createdAt (claimNextJob env.claimFault env.pick env.now jobs).2 := by
  unfold processNextJob
  split
  · rename_i hclaim
    rw [hclaim]
  · rename_i hclaim
    rw [hclaim]
  · rename_i hclaim
    rw [hclaim]
    exact ahead_processClaimed_le createdAt cfg env _ _

private theorem ahead_claimNextJob_le (createdAt : Nat) (fault : Option ClaimFault) (pick : JobId) (now : Nat)
    (jobs : JobTable) :
    ahead createdAt (claimNextJob fault pick now jobs).2 ≤ ahead createdAt jobs := by
  rcases table_claimNextJob fault pick now jobs with h | ⟨id, h⟩
  · rw [h]
  · rw [h]
    exact ahead_update_le fun _ => by simp [LiveJob.claim]

/-- No event puts a job ahead, and a poll that can claim takes one away. -/
private theorem ahead_pollStep {createdAt : Nat} {event : PollEvent} (hyounger : event.younger createdAt)
    (jobs : JobTable) :
    ahead createdAt (pollStep jobs event) ≤
      ahead createdAt jobs - (if event.claims then 1 else 0) := by
  cases event with
  | poll cfg env =>
      have hle : ahead createdAt (pollStep jobs (.poll cfg env)) ≤
          ahead createdAt (claimNextJob env.claimFault env.pick env.now jobs).2 :=
        ahead_processNextJob_le createdAt cfg env jobs
      have hclaim := ahead_claimNextJob_le createdAt env.claimFault env.pick env.now jobs
      cases hfault : env.claimFault with
      | some fault =>
          simp only [PollEvent.claims, hfault, Option.isNone_some, Bool.false_eq_true, if_false]
          omega
      | none =>
          simp only [PollEvent.claims, hfault, Option.isNone_none, if_true]
          rw [hfault] at hle hclaim
          by_cases hahead : 0 < ahead createdAt jobs
          · cases hselect : selectNext jobs env.pick with
            | none =>
                obtain ⟨due, hdue, hdueBy⟩ := List.countP_pos_iff.mp hahead
                have hpending : due.status = .pending := by
                  simp only [LiveJob.dueBy, Bool.and_eq_true, LiveJob.isPending_iff] at hdueBy
                  exact hdueBy.1
                exact absurd hpending ((selectNext_eq_none jobs env.pick).mp hselect due hdue)
            | some row =>
                have htable : (claimNextJob none env.pick env.now jobs).2 =
                    markClaimed jobs row.id env.now := by
                  simp only [claimNextJob, hselect]
                have hlt := ahead_claim_lt hselect env.now hahead
                rw [htable] at hle
                omega
          · omega
  | enqueue id signalId accountId userId lotSize payload now =>
      have hnow : createdAt < now := hyounger
      have hlate : ¬ now ≤ createdAt := by omega
      show ahead createdAt (Option.getD (enqueueJob _ jobs) jobs) ≤ _
      cases hinsert : enqueueJob
          (.enqueued id signalId accountId userId lotSize payload now) jobs with
      | none => exact Nat.le_refl _
      | some jobs' =>
          obtain ⟨-, -, hrows⟩ := enqueueJob_eq_some.mp hinsert
          rw [Option.getD_some, ahead, hrows, List.countP_cons_of_neg]
          · exact Nat.le_refl _
          · simp [LiveJob.dueBy, LiveJob.enqueued, hlate]
  | cancel id now =>
      show ahead createdAt (cancelJob id now jobs).2 ≤ _
      unfold cancelJob guardedUpdate
      split
      · refine @ahead_update_le createdAt jobs id (LiveJob.cancel now) (fun _ => rfl) ?_
        exact fun _ => by simp [LiveJob.cancel]
      · exact Nat.le_refl _

private theorem ahead_foldl {createdAt : Nat} {events : List PollEvent}
    (hyounger : ∀ event ∈ events, event.younger createdAt) (jobs : JobTable) :
    ahead createdAt (events.foldl pollStep jobs) ≤
      ahead createdAt jobs - events.countP PollEvent.claims := by
  induction events generalizing jobs with
  | nil => exact Nat.le_refl _
  | cons event rest ih =>
      have hstep := ahead_pollStep (hyounger event List.mem_cons_self) jobs
      have hrest := ih (fun other hother => hyounger other (List.mem_cons_of_mem _ hother))
        (pollStep jobs event)
      rw [List.foldl_cons, List.countP_cons]
      omega

/-! ### The job stays in the table -/

/-- A row of the job, with the time it was created at. -/
def Stored (id : JobId) (createdAt : Nat) (jobs : JobTable) : Prop :=
  ∃ row, jobs.find? id = some row ∧ row.createdAt = createdAt

theorem Stored.update {id key : JobId} {createdAt : Nat} {jobs : JobTable} {f : LiveJob → LiveJob}
    {hf : ∀ job, (f job).id = job.id} (hcreated : ∀ job, (f job).createdAt = job.createdAt)
    (h : Stored id createdAt jobs) : Stored id createdAt (jobs.update key f hf) := by
  obtain ⟨row, hrow, hage⟩ := h
  by_cases hkey : id = key
  · subst hkey
    exact ⟨f row, Table.find?_update_self hrow, (hcreated row).trans hage⟩
  · exact ⟨row, (Table.find?_update_of_ne hkey).trans hrow, hage⟩

theorem Stored.updateJobStatus {id key : JobId} {createdAt : Nat} {jobs : JobTable}
    {write : StatusWrite} {now : Nat} {status : JobStatus} {result : Json}
    (h : Stored id createdAt jobs) :
    Stored id createdAt (updateJobStatus write now key status result jobs).2 := by
  have hmark : Stored id createdAt (markFinished jobs key now status result) := h.update fun _ => rfl
  cases write with
  | done => exact hmark
  | failed cause applied =>
      cases applied with
      | true => exact hmark
      | false => exact h

theorem Stored.processClaimed {id : JobId} {createdAt : Nat} {jobs : JobTable}
    (h : Stored id createdAt jobs) (cfg : Config) (env : Env) (job : LiveJob) :
    Stored id createdAt (processClaimed cfg env job jobs).2 := by
  have hbody : Stored id createdAt (processBody cfg env job jobs).2 := by
    rcases processBody_table cfg env job jobs with heq | ⟨result, heq⟩
    · rwa [heq]
    · rw [heq]
      exact h.update fun _ => rfl
  unfold SphereFx.Live.processClaimed
  split
  · exact h
  · simp only
    split
    · exact hbody
    · exact hbody.updateJobStatus

theorem Stored.pollStep {id : JobId} {createdAt : Nat} {jobs : JobTable}
    (h : Stored id createdAt jobs) (event : PollEvent) :
    Stored id createdAt (pollStep jobs event) := by
  cases event with
  | poll cfg env =>
      have hclaim : Stored id createdAt (claimNextJob env.claimFault env.pick env.now jobs).2 := by
        rcases table_claimNextJob env.claimFault env.pick env.now jobs with heq | ⟨key, heq⟩
        · rwa [heq]
        · rw [heq]
          exact h.update fun _ => rfl
      show Stored id createdAt (processNextJob cfg env jobs).2
      unfold processNextJob
      split
      · rename_i heq
        rwa [heq] at hclaim
      · rename_i heq
        rwa [heq] at hclaim
      · rename_i heq
        rw [heq] at hclaim
        exact hclaim.processClaimed cfg env _
  | enqueue key signalId accountId userId lotSize payload now =>
      show Stored id createdAt (Option.getD (enqueueJob _ jobs) jobs)
      cases hinsert : enqueueJob
          (.enqueued key signalId accountId userId lotSize payload now) jobs with
      | none => exact h
      | some jobs' =>
          obtain ⟨-, -, hrows⟩ := enqueueJob_eq_some.mp hinsert
          obtain ⟨row, hrow, hage⟩ := h
          obtain ⟨hmem, hid⟩ := Table.find?_eq_some.mp hrow
          refine ⟨row, Table.find?_eq_some.mpr ⟨?_, hid⟩, hage⟩
          rw [Option.getD_some, hrows]
          exact List.mem_cons_of_mem _ hmem
  | cancel key now =>
      show Stored id createdAt (cancelJob key now jobs).2
      unfold cancelJob guardedUpdate
      split
      · exact @Stored.update id key createdAt jobs (LiveJob.cancel now) (fun _ => rfl) (fun _ => rfl) h
      · exact h

/-- A pending job waits for at most as many polls as there are pending jobs that are not younger,
itself included: whatever the polls end in, and whatever else is enqueued or cancelled meanwhile, it
has then been claimed or cancelled. -/
theorem bounded_wait (jobs : JobTable) (job : LiveJob) (events : List PollEvent)
    (hjob : jobs.find? job.id = some job)
    (hyounger : ∀ event ∈ events, event.younger job.createdAt)
    (hpolls : ahead job.createdAt jobs ≤ events.countP PollEvent.claims) :
    ∃ row, (events.foldl pollStep jobs).find? job.id = some row ∧ row.status ≠ .pending := by
  have hstored : Stored job.id job.createdAt (events.foldl pollStep jobs) :=
    @visited_invariant _ _ pollStep (Stored job.id job.createdAt) (fun h => h.pollStep _) _ events
      ⟨job, hjob, rfl⟩ _ (foldl_mem_visited pollStep jobs events)
  obtain ⟨row, hrow, hage⟩ := hstored
  refine ⟨row, hrow, fun hpending => ?_⟩
  have hahead : 0 < ahead job.createdAt (events.foldl pollStep jobs) := by
    refine List.countP_pos_iff.mpr ⟨row, (Table.find?_eq_some.mp hrow).1, ?_⟩
    simp [LiveJob.dueBy, LiveJob.isPending, hpending, hage]
  have hle := ahead_foldl hyounger jobs
  omega

/-- The younger of two jobs, after a poll that fills the older one and a poll that panics. -/
theorem bounded_wait_of_two : ∃ row,
    ([PollEvent.poll defaultConfig (fillEnv none), .enqueue 43 9 3 9 1 .null 7,
      .poll defaultConfig (fillEnv (some .validate))].foldl pollStep
      ⟨[.enqueued 42 8 3 9 1 .null 6, .enqueued 41 7 3 9 1 .null 5], by decide⟩).find? 42 = some row ∧
      row.status ≠ .pending :=
  bounded_wait _ (.enqueued 42 8 3 9 1 .null 6) _ rfl
    (by simp [PollEvent.younger, LiveJob.enqueued]) (by decide)

end SphereFx.Live
