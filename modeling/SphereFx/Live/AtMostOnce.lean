import SphereFx.Live.Queue

/-!
# At most one order per job

The invariant ties each actor to the table: a transaction's row is locked by it, and a job that a
worker holds, or for which an order was sent, is an unlocked row that is no longer pending. Rows that
are not pending are never locked again, since both statements that lock a row look for pending ones,
so what an invariant says about such a row survives every step of everybody else.
-/

namespace SphereFx.Live

open LockTable

abbrev LiveJobs := LockTable ActorId JobId LiveJob

/-- A version that may replace another one inside a session: the id and the columns of the unique
constraint stay, and no session finishes a job. -/
def SameOrder (job job' : LiveJob) : Prop :=
  job.id = job'.id ∧ job.pair = job'.pair ∧
    (job'.status = .success ∨ job'.status = .failed → job.status = job'.status)

theorem SameOrder.refl (job : LiveJob) : SameOrder job job := ⟨rfl, rfl, fun _ => rfl⟩

theorem SameOrder.trans (u v w : LiveJob) (huv : SameOrder u v) (hvw : SameOrder v w) :
    SameOrder u w := by
  obtain ⟨hid, hpair, hstatus⟩ := huv
  obtain ⟨hid', hpair', hstatus'⟩ := hvw
  refine ⟨hid.trans hid', hpair.trans hpair', fun h => ?_⟩
  have hw : v.status = w.status := hstatus' h
  exact (hstatus (hw ▸ h)).trans hw

theorem SameOrder.cancel (now : Nat) (job : LiveJob) : SameOrder job (job.cancel now) :=
  ⟨rfl, rfl, fun h => by simp [LiveJob.cancel] at h⟩

theorem SameOrder.claim (now : Nat) (job : LiveJob) : SameOrder job (job.claim now) :=
  ⟨rfl, rfl, fun h => by simp [LiveJob.claim] at h⟩

/-- A step of one session on `live_jobs`, which locks pending rows only. -/
abbrev SessionStep (a : ActorId) (rows rows' : LiveJobs) : Prop :=
  TxnStep a LiveJob.isPending SameOrder rows rows'

/-- An unlocked row whose committed version satisfies a predicate. -/
def Settled (rows : LiveJobs) (id : JobId) (P : LiveJob → Prop) : Prop :=
  ∃ job, rows.lookup id = some ⟨some job, .free⟩ ∧ P job

/-- The row an actor has locked, with the version it would publish. -/
def Actor.Locks (rows : LiveJobs) (a : ActorId) : Actor → Prop
  | .inserted id => ∃ job, rows.lookup id = some ⟨none, .held a job⟩
  | .cancelled id =>
      ∃ old job, rows.lookup id = some ⟨some old, .held a job⟩ ∧ job.status = .cancelled
  | .selected job =>
      ∃ old new, rows.lookup job.id = some ⟨some old, .held a new⟩ ∧ new.pair = job.pair
  | .claiming job =>
      ∃ old new, rows.lookup job.id = some ⟨some old, .held a new⟩ ∧
        new.status = .claimed ∧ new.pair = job.pair
  | _ => True

/-- A claimed job's row: taken, unlocked, and for the same order. -/
def Taken (rows : LiveJobs) (id : JobId) (pair : Nat × Nat) : Prop :=
  Settled rows id fun job => job.status.taken = true ∧ job.pair = pair

/-- Ids are primary keys, and `uq_job_signal_account` holds of every version of every row. -/
structure Keyed (rows : LiveJobs) : Prop where
  ids : ∀ {id row job}, rows.lookup id = some row → job ∈ row.versions → job.id = id
  unique : ∀ {id id' row row' job job'}, rows.lookup id = some row →
    rows.lookup id' = some row' → job ∈ row.versions → job' ∈ row'.versions →
      job.pair = job'.pair → id = id'

/-- The invariant of the live queue. -/
structure Inv (s : Queue) : Prop where
  keyed : Keyed s.rows
  locks : ∀ a, (s.actors a).Locks s.rows a
  holds : ∀ {a job}, (s.actors a).job? = some job → Taken s.rows job.id job.pair
  exclusive : ∀ {a b job job'}, (s.actors a).job? = some job → (s.actors b).job? = some job' →
    job.id = job'.id → a = b
  posted : ∀ post ∈ s.posts, Taken s.rows post.job post.pair
  once : (s.posts.map Post.job).Nodup
  unposted : ∀ {a job}, s.actors a = .holding job → job.id ∉ s.posts.map Post.job
  cancelled : ∀ id ∈ s.cancelled, Settled s.rows id fun job => job.status = .cancelled

theorem inv_empty : Inv Queue.empty where
  keyed := ⟨fun h => by simp [Queue.empty] at h, fun h => by simp [Queue.empty] at h⟩
  locks := fun _ => trivial
  holds := fun h => by simp [Queue.empty, Actor.job?] at h
  exclusive := fun h => by simp [Queue.empty, Actor.job?] at h
  posted := fun _ h => by simp [Queue.empty] at h
  once := List.nodup_nil
  unposted := fun h => by simp [Queue.empty] at h
  cancelled := fun _ h => by simp [Queue.empty] at h

/-! ### What survives a step on the table -/

theorem Settled.not_held {rows : LiveJobs} {id : JobId} {P : LiveJob → Prop} (h : Settled rows id P)
    {committed : Option LiveJob} {holder : ActorId} {version : LiveJob}
    (hrow : rows.lookup id = some ⟨committed, .held holder version⟩) : False := by
  obtain ⟨job, hfree, _⟩ := h
  rw [hfree] at hrow
  cases hrow

theorem Actor.Locks.of_lookup_eq {rows rows' : LiveJobs} {b : ActorId} {x : Actor}
    (h : x.Locks rows b)
    (hsame : ∀ {id committed version}, rows.lookup id = some ⟨committed, .held b version⟩ →
      rows'.lookup id = rows.lookup id) : x.Locks rows' b := by
  cases x with
  | inserted id =>
      obtain ⟨job, hrow⟩ := h
      exact ⟨job, (hsame hrow).trans hrow⟩
  | cancelled id =>
      obtain ⟨old, job, hrow, hjob⟩ := h
      exact ⟨old, job, (hsame hrow).trans hrow, hjob⟩
  | selected job =>
      obtain ⟨old, new, hrow, hnew⟩ := h
      exact ⟨old, new, (hsame hrow).trans hrow, hnew⟩
  | claiming job =>
      obtain ⟨old, new, hrow, hnew⟩ := h
      exact ⟨old, new, (hsame hrow).trans hrow, hnew⟩
  | _ => trivial

/-- What every statement of one actor leaves to the others: the constraints, the rows they have
locked, the orders that were taken and the ones that were cancelled. -/
structure Keeps (a : ActorId) (rows rows' : LiveJobs) : Prop where
  keyed : Keyed rows → Keyed rows'
  others : ∀ {id committed holder version},
    rows.lookup id = some ⟨committed, .held holder version⟩ → holder ≠ a →
      rows'.lookup id = rows.lookup id
  taken : ∀ {id pair}, Taken rows id pair → Taken rows' id pair
  cancelled : ∀ {id}, Settled rows id (fun job => job.status = .cancelled) →
    Settled rows' id fun job => job.status = .cancelled

theorem Settled.of_session {a : ActorId} {rows rows' : LiveJobs} (hstep : SessionStep a rows rows')
    {id : JobId} {P : LiveJob → Prop} (hP : ∀ job, P job → job.isPending = false)
    (h : Settled rows id P) : Settled rows' id P := by
  obtain ⟨job, hrow, hjob⟩ := h
  exact ⟨job, (hstep.settled hrow (hP job hjob)).trans hrow, hjob⟩

theorem Keeps.of_session {a : ActorId} {rows rows' : LiveJobs} (hstep : SessionStep a rows rows') :
    Keeps a rows rows' where
  keyed := fun hkeyed => by
    refine ⟨fun hrow hmem => ?_, fun hrow hrow' hmem hmem' hpair => ?_⟩
    · obtain ⟨row, job, hrow', hmem', hsame⟩ := hstep.derived hrow hmem
      rw [← hsame.1]
      exact hkeyed.ids hrow' hmem'
    · obtain ⟨row₁, job₁, hrow₁, hmem₁, hsame₁⟩ := hstep.derived hrow hmem
      obtain ⟨row₂, job₂, hrow₂, hmem₂, hsame₂⟩ := hstep.derived hrow' hmem'
      exact hkeyed.unique hrow₁ hrow₂ hmem₁ hmem₂
        (hsame₁.2.1.trans (hpair.trans hsame₂.2.1.symm))
  others := hstep.others
  taken := Settled.of_session hstep fun _ h => LiveJob.not_isPending_of_taken h.1
  cancelled := Settled.of_session hstep fun job h => by simp [LiveJob.isPending, h]

/-- `enqueue_job` under the unique constraint, which admits no second row for the pair. -/
theorem Keeps.of_insert {a : ActorId} {rows rows' : LiveJobs} {id : JobId} {job : LiveJob}
    (hid : job.id = id) (hpair : rows.allVersions (fun other => other.pair ≠ job.pair) = true)
    (hinsert : rows.insertNew a id job = some rows') : Keeps a rows rows' := by
  obtain ⟨hnone, rfl⟩ := insertNew_eq_some hinsert
  have hkeep : ∀ {key row}, rows.lookup key = some row →
      (rows.insert id ⟨none, .held a job⟩).lookup key = rows.lookup key := by
    intro key row hrow
    refine AList.lookup_insert_ne ?_
    rintro rfl
    rw [hnone] at hrow
    cases hrow
  have hsettled : ∀ {key P}, Settled rows key P →
      Settled (rows.insert id ⟨none, .held a job⟩) key P :=
    fun ⟨v, hrow, hv⟩ => ⟨v, (hkeep hrow).trans hrow, hv⟩
  have hnew : ∀ {key row version},
      (rows.insert id ⟨none, .held a job⟩).lookup key = some row → version ∈ row.versions →
        (key = id ∧ version = job) ∨ rows.lookup key = some row :=
    fun hrow hmem => mem_versions_insert rfl hrow hmem
  have hfresh : ∀ {key row version}, rows.lookup key = some row → version ∈ row.versions →
      version.pair ≠ job.pair := fun hrow hmem => by
    simpa using mem_versions_of_lookup hpair hrow hmem
  refine ⟨fun hkeyed => ⟨?_, ?_⟩, fun hrow _ => hkeep hrow, hsettled, hsettled⟩
  · intro key row version hrow hmem
    rcases hnew hrow hmem with ⟨rfl, rfl⟩ | hold
    · exact hid
    · exact hkeyed.ids hold hmem
  · intro key key' row row' version version' hrow hrow' hmem hmem' heq
    rcases hnew hrow hmem with ⟨hkey, hversion⟩ | hold
    · rcases hnew hrow' hmem' with ⟨hkey', _⟩ | hold'
      · rw [hkey, hkey']
      · rw [hversion] at heq
        exact absurd heq.symm (hfresh hold' hmem')
    · rcases hnew hrow' hmem' with ⟨_, hversion'⟩ | hold'
      · rw [hversion'] at heq
        exact absurd heq (hfresh hold hmem)
      · exact hkeyed.unique hold hold' hmem hmem' heq

/-- `UpdateJobStatus` on a taken row. -/
theorem Keeps.of_finish {a : ActorId} {rows rows' : LiveJobs} {id : JobId} {pair : Nat × Nat}
    {now : Nat} {status : JobStatus} {result : Json} (hstatus : status.taken = true)
    (htaken : Taken rows id pair)
    (hwrite : rows.autocommit id (LiveJob.finish now status result) = some rows') :
    Keeps a rows rows' := by
  obtain ⟨job, hrow, rfl⟩ := autocommit_eq_some hwrite
  have hold : job.status.taken = true := by
    obtain ⟨job', hrow', hjob', _⟩ := htaken
    rw [hrow] at hrow'
    cases hrow'
    exact hjob'
  have hversion : ∀ {key row version},
      (rows.insert id ⟨some (job.finish now status result), .free⟩).lookup key = some row →
      version ∈ row.versions → ∃ row₀ version₀, rows.lookup key = some row₀ ∧
        version₀ ∈ row₀.versions ∧ version₀.id = version.id ∧ version₀.pair = version.pair := by
    intro key row version hlookup hmem
    rcases mem_versions_insert rfl hlookup hmem with ⟨rfl, rfl⟩ | hold
    · exact ⟨_, job, hrow, by simp [LockRow.versions], rfl, LiveJob.pair_finish now status result job⟩
    · exact ⟨row, version, hold, hmem, rfl, rfl⟩
  refine ⟨fun hkeyed => ⟨?_, ?_⟩, ?_, ?_, ?_⟩
  · intro key row version hlookup hmem
    obtain ⟨row₀, version₀, hrow₀, hmem₀, hid, _⟩ := hversion hlookup hmem
    rw [← hid]
    exact hkeyed.ids hrow₀ hmem₀
  · intro key key' row row' version version' hlookup hlookup' hmem hmem' heq
    obtain ⟨row₁, version₁, hrow₁, hmem₁, _, hpair₁⟩ := hversion hlookup hmem
    obtain ⟨row₂, version₂, hrow₂, hmem₂, _, hpair₂⟩ := hversion hlookup' hmem'
    exact hkeyed.unique hrow₁ hrow₂ hmem₁ hmem₂ (hpair₁.trans (heq.trans hpair₂.symm))
  · intro key committed holder version hother _
    refine AList.lookup_insert_ne ?_
    rintro rfl
    rw [hrow] at hother
    cases hother
  · rintro key pair' ⟨other, hother, htaken', hpair'⟩
    by_cases hkey : key = id
    · subst hkey
      rw [hrow] at hother
      cases hother
      exact ⟨_, AList.lookup_insert _, hstatus, hpair'⟩
    · exact ⟨other, (AList.lookup_insert_ne hkey).trans hother, htaken', hpair'⟩
  · rintro key ⟨other, hother, hcancelled⟩
    by_cases hkey : key = id
    · subst hkey
      rw [hrow] at hother
      cases hother
      rw [hcancelled] at hold
      cases hold
    · exact ⟨other, (AList.lookup_insert_ne hkey).trans hother, hcancelled⟩

/-! ### The kinds of steps -/

/-- The parts of the state the invariant reads, after `a` has moved to `x`. -/
structure Moved (s s' : Queue) (a : ActorId) (x : Actor) (rows : LiveJobs) : Prop where
  rows_eq : s'.rows = rows
  actors_eq : s'.actors = Function.update s.actors a x
  posts_eq : s'.posts = s.posts

theorem Moved.self {s s' : Queue} {a : ActorId} {x : Actor} {rows : LiveJobs}
    (h : Moved s s' a x rows) : s'.actors a = x := by
  rw [h.actors_eq, Function.update_self]

theorem Moved.other {s s' : Queue} {a b : ActorId} {x : Actor} {rows : LiveJobs}
    (h : Moved s s' a x rows) (hne : b ≠ a) : s'.actors b = s.actors b := by
  rw [h.actors_eq, Function.update_of_ne hne]

/-- A job that `a` has just claimed: its row is taken and was locked by `a` before. -/
def JustClaimed (a : ActorId) (rows rows' : LiveJobs) (job : LiveJob) : Prop :=
  Taken rows' job.id job.pair ∧
    ∃ committed version, rows.lookup job.id = some ⟨committed, .held a version⟩

/-- A move of one actor keeps the invariant when the actor holds afterwards what it held before, or
a job no other actor can hold. -/
theorem Inv.moved {s s' : Queue} (hinv : Inv s) {a : ActorId} {x : Actor} {rows : LiveJobs}
    (hmoved : Moved s s' a x rows) (hkeeps : Keeps a s.rows rows) (hlocks : x.Locks rows a)
    (hjob : ∀ {job}, x.job? = some job →
      (s.actors a).job? = some job ∨ JustClaimed a s.rows rows job)
    (hholding : ∀ {job}, x = .holding job → JustClaimed a s.rows rows job)
    (hcancelled : ∀ id ∈ s'.cancelled, id ∈ s.cancelled ∨
      Settled rows id fun job => job.status = .cancelled) : Inv s' where
  keyed := by
    rw [hmoved.rows_eq]
    exact hkeeps.keyed hinv.keyed
  locks := fun b => by
    rw [hmoved.rows_eq]
    by_cases hb : b = a
    · subst hb
      rw [hmoved.self]
      exact hlocks
    · rw [hmoved.other hb]
      exact (hinv.locks b).of_lookup_eq fun hrow => hkeeps.others hrow hb
  holds := fun {b job} hb => by
    rw [hmoved.rows_eq]
    by_cases hba : b = a
    · subst hba
      rw [hmoved.self] at hb
      rcases hjob hb with hold | ⟨htaken, _⟩
      · exact hkeeps.taken (hinv.holds hold)
      · exact htaken
    · rw [hmoved.other hba] at hb
      exact hkeeps.taken (hinv.holds hb)
  exclusive := fun {b c job job'} hb hc hid => by
    by_cases hba : b = a <;> by_cases hca : c = a
    · rw [hba, hca]
    · subst hba
      rw [hmoved.self] at hb
      rw [hmoved.other hca] at hc
      rcases hjob hb with hold | ⟨_, _, _, hheld⟩
      · exact hinv.exclusive hold hc hid
      · rw [hid] at hheld
        exact (Settled.not_held (hinv.holds hc) hheld).elim
    · subst hca
      rw [hmoved.other hba] at hb
      rw [hmoved.self] at hc
      rcases hjob hc with hold | ⟨_, _, _, hheld⟩
      · exact hinv.exclusive hb hold hid
      · rw [← hid] at hheld
        exact (Settled.not_held (hinv.holds hb) hheld).elim
    · rw [hmoved.other hba] at hb
      rw [hmoved.other hca] at hc
      exact hinv.exclusive hb hc hid
  posted := fun post hpost => by
    rw [hmoved.rows_eq]
    rw [hmoved.posts_eq] at hpost
    exact hkeeps.taken (hinv.posted post hpost)
  once := by
    rw [hmoved.posts_eq]
    exact hinv.once
  unposted := fun {b job} hb hmem => by
    rw [hmoved.posts_eq] at hmem
    by_cases hba : b = a
    · subst hba
      rw [hmoved.self] at hb
      obtain ⟨_, _, _, hheld⟩ := hholding hb
      obtain ⟨post, hpost, hid⟩ := List.mem_map.mp hmem
      rw [← hid] at hheld
      exact Settled.not_held (hinv.posted post hpost) hheld
    · rw [hmoved.other hba] at hb
      exact hinv.unposted hb hmem
  cancelled := fun id hid => by
    rw [hmoved.rows_eq]
    rcases hcancelled id hid with hold | hnew
    · exact hkeeps.cancelled (hinv.cancelled id hold)
    · exact hnew

theorem Inv.moved_plain {s s' : Queue} (hinv : Inv s) {a : ActorId} {x : Actor} {rows : LiveJobs}
    (hmoved : Moved s s' a x rows) (hkeeps : Keeps a s.rows rows) (hlocked : x.locked? = none)
    (hjob : ∀ {job}, x.job? = some job → (s.actors a).job? = some job)
    (hholding : ∀ job, x ≠ .holding job) (hcancelled : s'.cancelled = s.cancelled) : Inv s' := by
  refine hinv.moved hmoved hkeeps ?_ (fun h => Or.inl (hjob h))
    (fun h => absurd h (hholding _)) (fun id hid => Or.inl (hcancelled ▸ hid))
  cases x <;> trivial

theorem Inv.moved_free {s s' : Queue} (hinv : Inv s) {a : ActorId} {x : Actor} {rows : LiveJobs}
    (hmoved : Moved s s' a x rows) (hkeeps : Keeps a s.rows rows) (hlocks : x.Locks rows a)
    (hjob : x.job? = none) (hcancelled : s'.cancelled = s.cancelled) : Inv s' := by
  have hnone : ∀ {job}, x.job? ≠ some job := fun h => by
    rw [hjob] at h
    cases h
  refine hinv.moved hmoved hkeeps hlocks (fun h => absurd h hnone) ?_
    (fun id hid => Or.inl (hcancelled ▸ hid))
  rintro job rfl
  exact absurd rfl hnone

theorem Keeps.refl (a : ActorId) (rows : LiveJobs) : Keeps a rows rows :=
  Keeps.of_session (TxnStep.refl SameOrder.refl a rows)

theorem Inv.quiet {s s' : Queue} (hinv : Inv s) {a : ActorId} {x : Actor}
    (hmoved : Moved s s' a x s.rows) (hlocked : x.locked? = none)
    (hjob : ∀ {job}, x.job? = some job → (s.actors a).job? = some job)
    (hholding : ∀ job, x ≠ .holding job) (hcancelled : s'.cancelled = s.cancelled) : Inv s' :=
  hinv.moved_plain hmoved (Keeps.refl a s.rows) hlocked hjob hholding hcancelled

theorem Inv.of_eq {s s' : Queue} (hinv : Inv s) (hrows : s'.rows = s.rows)
    (hactors : s'.actors = s.actors) (hposts : s'.posts = s.posts)
    (hcancelled : s'.cancelled = s.cancelled) : Inv s' := by
  refine ⟨?_, ?_, ?_, ?_, ?_, ?_, ?_, ?_⟩ <;> simp only [hrows, hactors, hposts, hcancelled]
  · exact hinv.keyed
  · exact hinv.locks
  · exact hinv.holds
  · exact hinv.exclusive
  · exact hinv.posted
  · exact hinv.once
  · exact hinv.unposted
  · exact hinv.cancelled

/-- The request of a worker that holds the job and has not sent one for it. -/
theorem Inv.post {s s' : Queue} (hinv : Inv s) {a : ActorId} {job : LiveJob}
    (hold : s.actors a = .holding job) (hrows : s'.rows = s.rows)
    (hactors : s'.actors = Function.update s.actors a (.awaiting job))
    (hposts : s'.posts = ⟨job.id, job.signalId, job.accountId⟩ :: s.posts)
    (hcancelled : s'.cancelled = s.cancelled) : Inv s' := by
  have hjobs : ∀ b, (s'.actors b).job? = (s.actors b).job? := by
    intro b
    by_cases hb : b = a
    · subst hb
      rw [hactors, Function.update_self, hold]
      rfl
    · rw [hactors, Function.update_of_ne hb]
  have hheld : (s.actors a).job? = some job := by
    rw [hold]
    rfl
  refine ⟨?_, ?_, ?_, ?_, ?_, ?_, ?_, ?_⟩
  · rw [hrows]
    exact hinv.keyed
  · intro b
    rw [hrows]
    by_cases hb : b = a
    · subst hb
      rw [hactors, Function.update_self]
      trivial
    · rw [hactors, Function.update_of_ne hb]
      exact hinv.locks b
  · intro b other hb
    rw [hrows]
    exact hinv.holds ((hjobs b).symm.trans hb)
  · intro b c other other' hb hc
    exact hinv.exclusive ((hjobs b).symm.trans hb) ((hjobs c).symm.trans hc)
  · intro post hpost
    rw [hrows]
    rw [hposts] at hpost
    rcases List.mem_cons.mp hpost with rfl | hpost
    · exact hinv.holds hheld
    · exact hinv.posted post hpost
  · rw [hposts, List.map_cons, List.nodup_cons]
    exact ⟨hinv.unposted hold, hinv.once⟩
  · intro b other hb hmem
    by_cases hba : b = a
    · subst hba
      rw [hactors, Function.update_self] at hb
      cases hb
    · rw [hactors, Function.update_of_ne hba] at hb
      rw [hposts, List.map_cons] at hmem
      rcases List.mem_cons.mp hmem with hid | hmem
      · have hother : (s.actors b).job? = some other := by
          rw [hb]
          rfl
        exact hba (hinv.exclusive hother hheld hid)
      · exact hinv.unposted hb hmem
  · rw [hrows, hcancelled]
    exact hinv.cancelled

/-! ### What the statements do to the table -/

theorem Actor.Locks.held {rows : LiveJobs} {a : ActorId} {x : Actor} (h : x.Locks rows a)
    {id : JobId} (hid : x.locked? = some id) :
    ∃ committed version, rows.lookup id = some ⟨committed, .held a version⟩ := by
  cases x <;> cases hid
  · obtain ⟨job, hrow⟩ := h
    exact ⟨none, job, hrow⟩
  · obtain ⟨old, job, hrow, _⟩ := h
    exact ⟨some old, job, hrow⟩
  · obtain ⟨old, new, hrow, _⟩ := h
    exact ⟨some old, new, hrow⟩
  · obtain ⟨old, new, hrow, _⟩ := h
    exact ⟨some old, new, hrow⟩

theorem settleRows_session {s : Queue} {a : ActorId} {id : JobId} {committed : Option LiveJob}
    {version : LiveJob} (h : s.rows.lookup id = some ⟨committed, .held a version⟩) (applied : Bool) :
    SessionStep a s.rows (s.settleRows a id applied) := by
  cases applied with
  | true => exact commit_txnStep SameOrder.refl h
  | false => exact rollback_txnStep SameOrder.refl h

theorem settleRows_applied {s : Queue} {a : ActorId} {id : JobId} {committed : Option LiveJob}
    {version : LiveJob} (h : s.rows.lookup id = some ⟨committed, .held a version⟩) :
    s.settleRows a id true = s.rows.insert id ⟨some version, .free⟩ := by
  rw [Queue.settleRows, if_pos rfl, commit_of_held h]

theorem abandon_session {s : Queue} (hinv : Inv s) (a : ActorId) :
    SessionStep a s.rows (s.abandon a).rows := by
  simp only [Queue.abandon]
  split
  · rename_i id hid
    obtain ⟨committed, version, hrow⟩ := (hinv.locks a).held hid
    exact rollback_txnStep SameOrder.refl hrow
  · exact TxnStep.refl SameOrder.refl a s.rows

theorem cancelUpdate_spec {rows rows' : LiveJobs} {a : ActorId} {id : JobId} {now : Nat}
    (h : (rows.acquire a id LiveJob.isPending).bind
      (fun mid => mid.rewrite a id (LiveJob.cancel now)) = some rows') :
    SessionStep a rows rows' ∧ (Actor.cancelled id).Locks rows' a := by
  obtain ⟨mid, hacquire, hrewrite⟩ := Option.bind_eq_some_iff.mp h
  constructor
  · exact TxnStep.trans SameOrder.trans (acquire_txnStep SameOrder.refl hacquire)
      (rewrite_txnStep SameOrder.refl (SameOrder.cancel now) hrewrite)
  · obtain ⟨version, _, _, rfl⟩ := acquire_eq_some hacquire
    obtain ⟨committed, version', hrow', rfl⟩ := rewrite_eq_some hrewrite
    rw [AList.lookup_insert] at hrow'
    cases hrow'
    exact ⟨version, version.cancel now, AList.lookup_insert _, rfl⟩

theorem claimSelect_spec {rows rows' : LiveJobs} (hkeyed : Keyed rows) {a : ActorId} {id : JobId}
    {job : LiveJob} (hjob : rows.committed? id = some job)
    (h : rows.acquire a id LiveJob.isPending = some rows') :
    SessionStep a rows rows' ∧ (Actor.selected job).Locks rows' a := by
  refine ⟨acquire_txnStep SameOrder.refl h, ?_⟩
  obtain ⟨version, hrow, _, rfl⟩ := acquire_eq_some h
  have hversion : version = job := by
    rw [committed?, hrow] at hjob
    exact Option.some.inj hjob
  have hid : version.id = id := hkeyed.ids hrow (by simp [LockRow.versions])
  subst hversion
  rw [← hid]
  exact ⟨version, version, AList.lookup_insert _, rfl⟩

theorem claimUpdate_spec {rows rows' : LiveJobs} {a : ActorId} {job : LiveJob} {now : Nat}
    (hlocks : (Actor.selected job).Locks rows a)
    (h : rows.rewrite a job.id (LiveJob.claim now) = some rows') :
    SessionStep a rows rows' ∧ (Actor.claiming (job.claimedCopy now)).Locks rows' a := by
  refine ⟨rewrite_txnStep SameOrder.refl (SameOrder.claim now) h, ?_⟩
  obtain ⟨old, new, hrow, hpair⟩ := hlocks
  obtain ⟨committed, version, hrow', rfl⟩ := rewrite_eq_some h
  rw [hrow] at hrow'
  cases hrow'
  exact ⟨old, new.claim now, AList.lookup_insert _, rfl, hpair⟩

theorem Keeps.of_updateJobStatus {s : Queue} {rows' : LiveJobs} {a : ActorId} {id : JobId}
    {pair : Nat × Nat} {now : Nat} {status : JobStatus} {result : Json} {applied : Bool}
    (hstatus : status.taken = true) (htaken : Taken s.rows id pair)
    (hwrite : s.updateJobStatus id now status result applied = some rows') :
    Keeps a s.rows rows' := by
  unfold Queue.updateJobStatus at hwrite
  split at hwrite
  · exact Keeps.of_finish hstatus htaken hwrite
  · cases hwrite
    exact Keeps.refl a s.rows

/-! ### Every step -/

private theorem job?_eq {s : Queue} {a : ActorId} {x : Actor} {job : LiveJob} (hx : s.actors a = x)
    (hjob : x.job? = some job) : (s.actors a).job? = some job := by
  rw [hx, hjob]

/-- A cancellation is remembered only if its commit was applied to the cancelled row. -/
private theorem inv_commitCancel {s : Queue} (hinv : Inv s) {a : ActorId} {id : JobId}
    (hx : s.actors a = .cancelled id) (applied : Bool) :
    Inv { s.move a .idle with
      rows := s.settleRows a id applied
      cancelled := if applied then id :: s.cancelled else s.cancelled } := by
  have hlocks := hinv.locks a
  rw [hx] at hlocks
  obtain ⟨old, job, hrow, hstatus⟩ := hlocks
  refine hinv.moved ⟨rfl, rfl, rfl⟩ (Keeps.of_session (settleRows_session hrow _)) trivial
    (fun h => by cases h) (fun h => by cases h) ?_
  intro key hkey
  cases applied with
  | false => exact Or.inl hkey
  | true =>
      rcases List.mem_cons.mp hkey with rfl | hkey
      · refine Or.inr ⟨job, ?_, hstatus⟩
        rw [settleRows_applied hrow, AList.lookup_insert]
      · exact Or.inl hkey

/-- The job that a worker holds after its commit was locked by it until then. -/
private theorem inv_commitClaim {s : Queue} (hinv : Inv s) {a : ActorId} {job : LiveJob}
    (hx : s.actors a = .claiming job) :
    Inv { s.move a (.holding job) with rows := s.settleRows a job.id true } := by
  have hlocks := hinv.locks a
  rw [hx] at hlocks
  obtain ⟨old, new, hrow, hstatus, hpair⟩ := hlocks
  have hclaimed : JustClaimed a s.rows (s.settleRows a job.id true) job := by
    refine ⟨⟨new, ?_, by rw [hstatus]; rfl, hpair⟩, some old, new, hrow⟩
    rw [settleRows_applied hrow, AList.lookup_insert]
  refine hinv.moved ⟨rfl, rfl, rfl⟩ (Keeps.of_session (settleRows_session hrow true)) trivial ?_ ?_
    (fun id hid => Or.inl hid)
  · intro other hother
    cases hother
    exact Or.inr hclaimed
  · intro other hother
    cases hother
    exact hclaimed

theorem Inv.effect {s s' : Queue} {act : Action} (hinv : Inv s) (h : s.Effect act s') : Inv s' := by
  cases h with
  | stay => exact hinv
  | move a x _ hjob =>
      refine hinv.moved_free ⟨rfl, rfl, rfl⟩ (Keeps.refl a s.rows) ?_ hjob rfl
      cases x <;> trivial
  | insert hstatus hpair hrows =>
      obtain ⟨-, hinsert⟩ := insertNew_eq_some hrows
      refine hinv.moved_free ⟨rfl, rfl, rfl⟩ (Keeps.of_insert rfl hpair hrows) ?_ rfl rfl
      exact ⟨_, by rw [hinsert, AList.lookup_insert]⟩
  | cancel hrows =>
      obtain ⟨hsession, hlocks⟩ := cancelUpdate_spec hrows
      exact hinv.moved_free ⟨rfl, rfl, rfl⟩ (Keeps.of_session hsession) hlocks rfl rfl
  | select hjob hrows =>
      obtain ⟨hsession, hlocks⟩ := claimSelect_spec hinv.keyed hjob hrows
      exact hinv.moved_free ⟨rfl, rfl, rfl⟩ (Keeps.of_session hsession) hlocks rfl rfl
  | claim hx hrows =>
      obtain ⟨hsession, hlocks⟩ := claimUpdate_spec (hx ▸ hinv.locks _) hrows
      exact hinv.moved_free ⟨rfl, rfl, rfl⟩ (Keeps.of_session hsession) hlocks rfl rfl
  | settle hid applied =>
      obtain ⟨committed, version, hrow⟩ := (hinv.locks _).held hid
      exact hinv.moved_free ⟨rfl, rfl, rfl⟩ (Keeps.of_session (settleRows_session hrow _)) trivial
        rfl rfl
  | commitCancel hx applied => exact inv_commitCancel hinv hx applied
  | commitClaim hx => exact inv_commitClaim hinv hx
  | abandon a =>
      exact hinv.moved_free ⟨rfl, rfl, rfl⟩ (Keeps.of_session (abandon_session hinv a)) trivial rfl rfl
  | giveUp hx =>
      exact hinv.quiet ⟨rfl, rfl, rfl⟩ rfl (fun h => by cases h; exact job?_eq hx rfl)
        (fun _ h => by cases h) rfl
  | post hx => exact hinv.post hx rfl rfl rfl rfl
  | answer hx hreply =>
      exact hinv.quiet ⟨rfl, rfl, rfl⟩ rfl (fun h => by cases h; exact job?_eq hx rfl)
        (fun _ h => by cases h) rfl
  | reject hx hreply =>
      exact hinv.quiet ⟨rfl, rfl, rfl⟩ rfl (fun h => by cases h; exact job?_eq hx rfl)
        (fun _ h => by cases h) rfl
  | fault hjob =>
      exact hinv.quiet ⟨rfl, rfl, rfl⟩ rfl (fun h => by cases h; exact hjob)
        (fun _ h => by cases h) rfl
  | record hx hrows =>
      have hjob := job?_eq hx rfl
      exact hinv.moved_plain ⟨rfl, rfl, rfl⟩
        (Keeps.of_updateJobStatus rfl (hinv.holds hjob) hrows) rfl
        (fun h => by cases h; exact hjob) (fun _ h => by cases h) rfl
  | recordFault hx hrows =>
      have hjob := job?_eq hx rfl
      exact hinv.moved_plain ⟨rfl, rfl, rfl⟩
        (Keeps.of_updateJobStatus rfl (hinv.holds hjob) hrows) rfl
        (fun h => by cases h; exact hjob) (fun _ h => by cases h) rfl
  | recordFailed hx hrows =>
      have hjob := job?_eq hx rfl
      exact hinv.moved_free ⟨rfl, rfl, rfl⟩
        (Keeps.of_updateJobStatus rfl (hinv.holds hjob) hrows) trivial rfl rfl
  | loseRequest id => exact hinv.of_eq rfl rfl rfl rfl
  | execute reply hid => exact hinv.of_eq rfl rfl rfl rfl
  | loseReply id => exact hinv.of_eq rfl rfl rfl rfl

theorem inv_step {s s' : Queue} {act : Action} (hinv : Inv s) (h : s.step act = some s') :
    Inv s' :=
  hinv.effect (Queue.effect_of_step h)

private theorem inv_run {actions : List Action} {s : Queue} (h : Queue.run actions = some s) : Inv s :=
  runFrom_invariant inv_step inv_empty h

/-! ### The guarantee -/

theorem Inv.pairs_nodup {s : Queue} (hinv : Inv s) : (s.posts.map Post.pair).Nodup := by
  have hjobs : s.posts.Nodup := List.Nodup.of_map _ hinv.once
  refine hjobs.map_on ?_
  intro post hpost post' hpost' hpair
  obtain ⟨job, hrow, -, hjob⟩ := hinv.posted post hpost
  obtain ⟨job', hrow', -, hjob'⟩ := hinv.posted post' hpost'
  have hid : post.job = post'.job :=
    hinv.keyed.unique hrow hrow' (by simp [LockRow.versions]) (by simp [LockRow.versions])
      (hjob.trans (hpair.trans hjob'.symm))
  exact List.inj_on_of_nodup_map hinv.once hpost hpost' hid

theorem Inv.not_posted_of_cancelled {s : Queue} (hinv : Inv s) {post : Post}
    (hpost : post ∈ s.posts) : post.job ∉ s.cancelled := by
  intro hcancelled
  obtain ⟨job, hrow, htaken, -⟩ := hinv.posted post hpost
  obtain ⟨job', hrow', hstatus⟩ := hinv.cancelled post.job hcancelled
  rw [hrow] at hrow'
  cases hrow'
  rw [hstatus] at htaken
  cases htaken

/-- Under any interleaving, at most one order is sent for each signal and account, no two workers
hold the same claimed job, and no order is sent for a job whose cancellation was committed. -/
theorem at_most_one_order (actions : List Action) (s : Queue) (h : Queue.run actions = some s) :
    (∀ signalId accountId, (s.posts.map Post.pair).count (signalId, accountId) ≤ 1) ∧
      (∀ a b job job', (s.actors a).job? = some job → (s.actors b).job? = some job' →
        job.id = job'.id → a = b) ∧
      ∀ post ∈ s.posts, post.job ∉ s.cancelled := by
  have hinv : Inv s := inv_run h
  refine ⟨fun signalId accountId => ?_, fun a b job job' => hinv.exclusive, fun post hpost => ?_⟩
  · exact List.nodup_iff_count_le_one.mp hinv.pairs_nodup _
  · exact hinv.not_posted_of_cancelled hpost

/-- Two workers, and a cancel request that loses the race for the row. -/
def race : List Action :=
  [.routeCheck 1 7 3 9, .enqueue 1 42 1 .null 5, .commit 1 .done, .cancelLookup 4 42 9, .beginTx 2,
    .beginTx 3, .claimSelect 2 42, .claimNone 3, .claimUpdate 2 6, .commit 2 .done,
    .cancelUpdate 4 7, .post 2]

theorem at_most_one_order_of_race : ∃ s, Queue.run race = some s ∧
    (s.posts.map Post.pair).count (7, 3) = 1 ∧ (s.posts.map Post.pair).count (7, 3) ≤ 1 := by
  have hsome : (Queue.run race).isSome = true := rfl
  have hrun : Queue.run race = some ((Queue.run race).get hsome) := (Option.some_get hsome).symm
  exact ⟨_, hrun, rfl, (at_most_one_order race _ hrun).1 7 3⟩

end SphereFx.Live
