import SphereFx.Live.AtMostOnce

/-!
# The stored outcome against the broker's

`SUCCESS` is written only after a response that the bridge sends once the broker has accepted the
order, so it can be relied on. `FAILED` is written on every other way out, and some of those are
taken although the order was, or later will be, accepted. They are what the history calls a fault,
and the invariant says that there is no other reason for a wrong `FAILED`.
-/

namespace SphereFx.Live

open LockTable

/-- The job of a worker that has not learned the result of its order. -/
def Actor.open? : Actor → Option LiveJob
  | .holding job => some job
  | .awaiting job => some job
  | _ => none

/-- The job of a worker that was told of the fill. -/
def Actor.confirmed? : Actor → Option LiveJob
  | .answered job => some job
  | .recorded job => some job
  | _ => none

/-- The job of a worker that is about to write `FAILED`. -/
def Actor.failing? : Actor → Option LiveJob
  | .failing job => some job
  | _ => none

theorem Actor.job?_of_open? {x : Actor} {job : LiveJob} (h : x.open? = some job) :
    x.job? = some job := by
  cases x <;> first | exact h | cases h

theorem Actor.job?_of_confirmed? {x : Actor} {job : LiveJob} (h : x.confirmed? = some job) :
    x.job? = some job := by
  cases x <;> first | exact h | cases h

theorem Actor.job?_of_failing? {x : Actor} {job : LiveJob} (h : x.failing? = some job) :
    x.job? = some job := by
  cases x <;> first | exact h | cases h

/-- The broker has not accepted the order and never will, or a fault explains it. -/
def Excused (s : Queue) (id : JobId) : Prop :=
  id ∈ s.accepted ∨ id ∈ s.inFlight → id ∈ s.faults

/-- Every version of a row that says how the job ended is right about it. -/
structure Truthful (rows : LiveJobs) (accepted : List JobId) (excused : JobId → Prop) : Prop where
  success : ∀ {id row job}, rows.lookup id = some row → job ∈ row.versions →
    job.status = .success → id ∈ accepted
  failed : ∀ {id row job}, rows.lookup id = some row → job ∈ row.versions →
    job.status = .failed → excused id

/-- The requests and responses on their way agree with what the bridge did. -/
structure MessagesAgree (s : Queue) : Prop where
  sent : ∀ {id}, id ∈ s.inFlight → id ∈ s.posts.map Post.job
  fresh : ∀ {id}, id ∈ s.inFlight → id ∉ s.accepted
  accepted : ∀ {id}, id ∈ s.accepted → id ∈ s.posts.map Post.job
  replied : ∀ {id reply}, (id, reply) ∈ s.replies →
    id ∈ s.posts.map Post.job ∧ id ∉ s.inFlight ∧ (reply.accepts = true ↔ id ∈ s.accepted)

/-- The invariant behind the agreement. -/
structure OutcomeInv (s : Queue) : Prop where
  messages : MessagesAgree s
  claimed : ∀ {a job}, (s.actors a).open? = some job →
    Settled s.rows job.id fun row => row.status = .claimed
  confirmed : ∀ {a job}, (s.actors a).confirmed? = some job → job.id ∈ s.accepted
  failing : ∀ {a job}, (s.actors a).failing? = some job → Excused s job.id
  truthful : Truthful s.rows s.accepted (Excused s)

private theorem outcomeInv_empty : OutcomeInv Queue.empty where
  messages := by constructor <;> simp [Queue.empty]
  claimed := fun h => by simp [Queue.empty, Actor.open?] at h
  confirmed := fun h => by simp [Queue.empty, Actor.confirmed?] at h
  failing := fun h => by simp [Queue.empty, Actor.failing?] at h
  truthful := ⟨fun h => by simp [Queue.empty] at h, fun h => by simp [Queue.empty] at h⟩

/-! ### Statements and what they say about outcomes -/

theorem Truthful.of_session {a : ActorId} {rows rows' : LiveJobs} {accepted : List JobId}
    {excused : JobId → Prop} (h : Truthful rows accepted excused)
    (hstep : SessionStep a rows rows') : Truthful rows' accepted excused := by
  constructor
  · intro id row' job' hrow' hmem' hstatus
    obtain ⟨row, job, hrow, hmem, hsame⟩ := hstep.derived hrow' hmem'
    exact h.success hrow hmem ((hsame.2.2 (Or.inl hstatus)).trans hstatus)
  · intro id row' job' hrow' hmem' hstatus
    obtain ⟨row, job, hrow, hmem, hsame⟩ := hstep.derived hrow' hmem'
    exact h.failed hrow hmem ((hsame.2.2 (Or.inr hstatus)).trans hstatus)

/-- Replacing one row by a version whose status is right. -/
theorem Truthful.of_insert {rows : LiveJobs} {accepted : List JobId} {excused : JobId → Prop}
    (h : Truthful rows accepted excused) {id : JobId} {row : LockRow ActorId LiveJob} {job : LiveJob}
    (hversions : row.versions = [job]) (hsuccess : job.status = .success → id ∈ accepted)
    (hfailed : job.status = .failed → excused id) :
    Truthful (rows.insert id row) accepted excused := by
  constructor
  · intro key row' version hrow hmem hstatus
    rcases mem_versions_insert hversions hrow hmem with ⟨rfl, rfl⟩ | hold
    · exact hsuccess hstatus
    · exact h.success hold hmem hstatus
  · intro key row' version hrow hmem hstatus
    rcases mem_versions_insert hversions hrow hmem with ⟨rfl, rfl⟩ | hold
    · exact hfailed hstatus
    · exact h.failed hold hmem hstatus

theorem Truthful.mono {rows : LiveJobs} {accepted accepted' : List JobId}
    {excused excused' : JobId → Prop} (h : Truthful rows accepted excused)
    (haccepted : ∀ id ∈ accepted, id ∈ accepted')
    (hexcused : ∀ {id row job}, rows.lookup id = some row → job ∈ row.versions →
      job.status = .failed → excused id → excused' id) : Truthful rows accepted' excused' :=
  ⟨fun hrow hmem hstatus => haccepted _ (h.success hrow hmem hstatus),
    fun hrow hmem hstatus => hexcused hrow hmem hstatus (h.failed hrow hmem hstatus)⟩

theorem Excused.mono {s s' : Queue} {id : JobId} (h : Excused s id)
    (haccepted : id ∈ s'.accepted → id ∈ s.accepted) (hinFlight : id ∈ s'.inFlight → id ∈ s.inFlight)
    (hfaults : ∀ other ∈ s.faults, other ∈ s'.faults) : Excused s' id :=
  fun hid => hfaults id (h (hid.imp haccepted hinFlight))

/-! ### The kinds of steps -/

/-- The messages and the broker's books are as before, and at most one fault is added. -/
structure SameMessages (s s' : Queue) : Prop where
  inFlight : s'.inFlight = s.inFlight
  replies : s'.replies = s.replies
  accepted : s'.accepted = s.accepted
  posts : s'.posts = s.posts
  faults : ∀ id ∈ s.faults, id ∈ s'.faults

theorem SameMessages.agree {s s' : Queue} (hsame : SameMessages s s') (h : MessagesAgree s) :
    MessagesAgree s' := by
  constructor <;> simp only [hsame.inFlight, hsame.replies, hsame.accepted, hsame.posts]
  · exact h.sent
  · exact h.fresh
  · exact h.accepted
  · exact h.replied

theorem SameMessages.excused {s s' : Queue} (hsame : SameMessages s s') {id : JobId}
    (h : Excused s id) : Excused s' id := by
  apply h.mono _ _ hsame.faults
  · rw [hsame.accepted]
    exact fun hid => hid
  · rw [hsame.inFlight]
    exact fun hid => hid

/-- A move of one actor, given what it means for the actor and for the table. -/
theorem OutcomeInv.moved {s s' : Queue} (h : OutcomeInv s) {a : ActorId} {x : Actor}
    {rows : LiveJobs} (hmoved : Moved s s' a x rows) (hsame : SameMessages s s')
    (hothers : ∀ b ≠ a, ∀ job, (s.actors b).open? = some job →
      Settled rows job.id fun row => row.status = .claimed)
    (hopen : ∀ {job}, x.open? = some job → Settled rows job.id fun row => row.status = .claimed)
    (hconfirmed : ∀ {job}, x.confirmed? = some job → job.id ∈ s.accepted)
    (hfailing : ∀ {job}, x.failing? = some job → Excused s' job.id)
    (htruthful : Truthful rows s.accepted (Excused s')) : OutcomeInv s' where
  messages := hsame.agree h.messages
  claimed := fun {b job} hb => by
    rw [hmoved.rows_eq]
    by_cases hba : b = a
    · subst hba
      rw [hmoved.self] at hb
      exact hopen hb
    · rw [hmoved.other hba] at hb
      exact hothers b hba job hb
  confirmed := fun {b job} hb => by
    rw [hsame.accepted]
    by_cases hba : b = a
    · subst hba
      rw [hmoved.self] at hb
      exact hconfirmed hb
    · rw [hmoved.other hba] at hb
      exact h.confirmed hb
  failing := fun {b job} hb => by
    by_cases hba : b = a
    · subst hba
      rw [hmoved.self] at hb
      exact hfailing hb
    · rw [hmoved.other hba] at hb
      exact hsame.excused (h.failing hb)
  truthful := by
    rw [hmoved.rows_eq, hsame.accepted]
    exact htruthful

theorem OutcomeInv.truthful_same {s s' : Queue} (h : OutcomeInv s) (hsame : SameMessages s s') :
    Truthful s.rows s.accepted (Excused s') :=
  h.truthful.mono (fun _ hid => hid) (fun _ _ _ hid => hsame.excused hid)

theorem OutcomeInv.quiet {s s' : Queue} (h : OutcomeInv s) {a : ActorId} {x : Actor}
    (hmoved : Moved s s' a x s.rows) (hsame : SameMessages s s') (hopen : x.open? = none)
    (hconfirmed : ∀ {job}, x.confirmed? = some job → job.id ∈ s.accepted)
    (hfailing : ∀ {job}, x.failing? = some job → Excused s' job.id) : OutcomeInv s' :=
  h.moved hmoved hsame (fun _ _ _ hb => h.claimed hb) (fun hx => by rw [hopen] at hx; cases hx)
    hconfirmed hfailing (h.truthful_same hsame)

/-- A statement of a session, whose actor ends where no job is held. -/
theorem OutcomeInv.session {s s' : Queue} (h : OutcomeInv s) {a : ActorId} {x : Actor}
    {rows : LiveJobs} (hmoved : Moved s s' a x rows) (hsame : SameMessages s s')
    (hstep : SessionStep a s.rows rows) (hjob : x.job? = none) : OutcomeInv s' := by
  have hclaimed : ∀ {id}, Settled s.rows id (fun row => row.status = .claimed) →
      Settled rows id fun row => row.status = .claimed :=
    Settled.of_session hstep fun job hjob => by simp [LiveJob.isPending, hjob]
  have hnone : ∀ {job}, x.job? ≠ some job := fun hx => by
    rw [hjob] at hx
    cases hx
  exact h.moved hmoved hsame (fun _ _ _ hb => hclaimed (h.claimed hb))
    (fun hx => absurd (Actor.job?_of_open? hx) hnone)
    (fun hx => absurd (Actor.job?_of_confirmed? hx) hnone)
    (fun hx => absurd (Actor.job?_of_failing? hx) hnone)
    ((h.truthful_same hsame).of_session hstep)

/-- The bridge and the network only touch messages. -/
theorem OutcomeInv.of_messages {s s' : Queue} (h : OutcomeInv s) (hrows : s'.rows = s.rows)
    (hactors : s'.actors = s.actors) (hmessages : MessagesAgree s')
    (haccepted : ∀ id ∈ s.accepted, id ∈ s'.accepted)
    (hexcused : ∀ {id}, Excused s id → Excused s' id) : OutcomeInv s' where
  messages := hmessages
  claimed := by
    rw [hrows, hactors]
    exact h.claimed
  confirmed := by
    rw [hactors]
    exact fun hb => haccepted _ (h.confirmed hb)
  failing := by
    rw [hactors]
    exact fun hb => hexcused (h.failing hb)
  truthful := by
    rw [hrows]
    exact h.truthful.mono haccepted fun _ _ _ hid => hexcused hid

theorem OutcomeInv.insert {s s' : Queue} (h : OutcomeInv s) {a : ActorId} {id : JobId}
    {job : LiveJob} {rows : LiveJobs} (hmoved : Moved s s' a (.inserted id) rows)
    (hsame : SameMessages s s') (hstatus : job.status = .pending)
    (hinsert : s.rows.insertNew a id job = some rows) : OutcomeInv s' := by
  obtain ⟨hnone, rfl⟩ := insertNew_eq_some hinsert
  refine h.moved hmoved hsame ?_ (fun hx => by cases hx) (fun hx => by cases hx)
    (fun hx => by cases hx) ?_
  · intro b _ other hb
    obtain ⟨row, hrow, hclaimed⟩ := h.claimed hb
    refine ⟨row, ?_, hclaimed⟩
    rw [AList.lookup_insert_ne _, hrow]
    intro hid
    rw [hid, hnone] at hrow
    cases hrow
  · apply (h.truthful_same hsame).of_insert rfl
    · intro hsuccess
      rw [hstatus] at hsuccess
      cases hsuccess
    · intro hfailed
      rw [hstatus] at hfailed
      cases hfailed

/-- `UpdateJobStatus` by the worker that holds the job. -/
theorem OutcomeInv.write {s s' : Queue} (h : OutcomeInv s) (hinv : Inv s) {a : ActorId} {x : Actor}
    {job : LiveJob} {rows : LiveJobs} {now : Nat} {status : JobStatus} {result : Json}
    {applied : Bool} (hmoved : Moved s s' a x rows) (hsame : SameMessages s s')
    (hjob : (s.actors a).job? = some job)
    (hwrite : s.updateJobStatus job.id now status result applied = some rows)
    (hopen : x.open? = none)
    (hconfirmed : ∀ {other}, x.confirmed? = some other → other.id ∈ s.accepted)
    (hfailing : ∀ {other}, x.failing? = some other → Excused s' other.id)
    (hsuccess : status = .success → job.id ∈ s.accepted)
    (hfailed : status = .failed → Excused s' job.id) : OutcomeInv s' := by
  unfold Queue.updateJobStatus at hwrite
  split at hwrite
  · obtain ⟨row, _, rfl⟩ := autocommit_eq_some hwrite
    refine h.moved hmoved hsame ?_ (fun hx => by rw [hopen] at hx; cases hx) hconfirmed hfailing ?_
    · intro b hb other hother
      obtain ⟨row', hrow', hclaimed⟩ := h.claimed hother
      refine ⟨row', ?_, hclaimed⟩
      rw [AList.lookup_insert_ne _, hrow']
      intro hid
      exact hb (hinv.exclusive (Actor.job?_of_open? hother) hjob hid)
    · exact (h.truthful_same hsame).of_insert rfl hsuccess hfailed
  · cases hwrite
    exact h.quiet hmoved hsame hopen hconfirmed hfailing

theorem OutcomeInv.fault {s : Queue} (h : OutcomeInv s) (a : ActorId) (job : LiveJob) :
    OutcomeInv (s.fault a job) := by
  refine h.quiet ⟨rfl, rfl, rfl⟩ ⟨rfl, rfl, rfl, rfl, fun _ hid => List.mem_cons_of_mem _ hid⟩ rfl
    (fun hx => by cases hx) ?_
  intro other hx
  cases hx
  exact fun _ => List.mem_cons_self

theorem OutcomeInv.excused_of_holding {s : Queue} (h : OutcomeInv s) (hinv : Inv s) {a : ActorId}
    {job : LiveJob} (hx : s.actors a = .holding job) : Excused s job.id := by
  intro hid
  have hposted : job.id ∈ s.posts.map Post.job :=
    hid.elim (fun h' => h.messages.accepted h') (fun h' => h.messages.sent h')
  exact absurd hposted (hinv.unposted hx)

theorem OutcomeInv.post {s s' : Queue} (h : OutcomeInv s) (hinv : Inv s) {a : ActorId}
    {job : LiveJob} (hx : s.actors a = .holding job) (hrows : s'.rows = s.rows)
    (hactors : s'.actors = Function.update s.actors a (.awaiting job))
    (hinFlight : s'.inFlight = job.id :: s.inFlight) (hreplies : s'.replies = s.replies)
    (hposts : s'.posts = ⟨job.id, job.signalId, job.accountId⟩ :: s.posts)
    (haccepted : s'.accepted = s.accepted) (hfaults : s'.faults = s.faults) : OutcomeInv s' := by
  have hunposted : job.id ∉ s.posts.map Post.job := hinv.unposted hx
  have hjob : (s.actors a).job? = some job := by
    rw [hx]
    rfl
  have hclaimed : Settled s.rows job.id fun row => row.status = .claimed := by
    apply h.claimed
    rw [hx]
    rfl
  have hexcused : ∀ {id}, id ≠ job.id → Excused s id → Excused s' id := by
    intro id hne hid hin
    rw [haccepted, hinFlight] at hin
    rw [hfaults]
    exact hid (hin.imp_right fun hmem => (List.mem_cons.mp hmem).resolve_left hne)
  refine ⟨⟨?_, ?_, ?_, ?_⟩, ?_, ?_, ?_, ?_⟩
  · intro id hid
    rw [hinFlight] at hid
    rw [hposts, List.map_cons]
    rcases List.mem_cons.mp hid with rfl | hid
    · exact List.mem_cons_self
    · exact List.mem_cons_of_mem _ (h.messages.sent hid)
  · intro id hid
    rw [hinFlight] at hid
    rw [haccepted]
    rcases List.mem_cons.mp hid with rfl | hid
    · exact fun hmem => hunposted (h.messages.accepted hmem)
    · exact h.messages.fresh hid
  · intro id hid
    rw [haccepted] at hid
    rw [hposts, List.map_cons]
    exact List.mem_cons_of_mem _ (h.messages.accepted hid)
  · intro id reply hid
    rw [hreplies] at hid
    rw [hposts, hinFlight, haccepted, List.map_cons]
    obtain ⟨hposted, hnot, hiff⟩ := h.messages.replied hid
    refine ⟨List.mem_cons_of_mem _ hposted, ?_, hiff⟩
    rw [List.mem_cons]
    rintro (rfl | hmem)
    · exact hunposted hposted
    · exact hnot hmem
  · intro b other hb
    rw [hrows]
    by_cases hba : b = a
    · subst hba
      rw [hactors, Function.update_self] at hb
      cases hb
      exact hclaimed
    · rw [hactors, Function.update_of_ne hba] at hb
      exact h.claimed hb
  · intro b other hb
    rw [haccepted]
    by_cases hba : b = a
    · subst hba
      rw [hactors, Function.update_self] at hb
      cases hb
    · rw [hactors, Function.update_of_ne hba] at hb
      exact h.confirmed hb
  · intro b other hb
    by_cases hba : b = a
    · subst hba
      rw [hactors, Function.update_self] at hb
      cases hb
    · rw [hactors, Function.update_of_ne hba] at hb
      refine hexcused ?_ (h.failing hb)
      intro hid
      exact hba (hinv.exclusive (Actor.job?_of_failing? hb) hjob hid)
  · rw [hrows, haccepted]
    refine h.truthful.mono (fun _ hid => hid) ?_
    intro id row version hrow hmem hstatus hid
    refine hexcused ?_ hid
    rintro rfl
    obtain ⟨row', hrow', hstatus'⟩ := hclaimed
    rw [hrow] at hrow'
    cases hrow'
    have hversion : version = row' := by simpa [LockRow.versions] using hmem
    rw [hversion, hstatus'] at hstatus
    cases hstatus

theorem OutcomeInv.execute {s : Queue} (h : OutcomeInv s) {id : JobId} {reply : BridgeReply}
    (hid : id ∈ s.inFlight) :
    OutcomeInv { s with
      inFlight := s.inFlight.filter (· ≠ id)
      replies := (id, reply) :: s.replies
      accepted := if reply.accepts then id :: s.accepted else s.accepted } := by
  have hposted : id ∈ s.posts.map Post.job := h.messages.sent hid
  have hfresh : id ∉ s.accepted := h.messages.fresh hid
  have hgone : id ∉ s.inFlight.filter (· ≠ id) := by simp
  have hkept : ∀ {other}, other ∈ s.inFlight.filter (· ≠ id) → other ∈ s.inFlight :=
    fun hmem => List.mem_of_mem_filter hmem
  have hbooks : ∀ {other}, other ∈ (if reply.accepts then id :: s.accepted else s.accepted) ↔
      (reply.accepts = true ∧ other = id) ∨ other ∈ s.accepted := by
    intro other
    cases reply.accepts <;> simp
  refine h.of_messages rfl rfl ⟨?_, ?_, ?_, ?_⟩ ?_ ?_
  · exact fun hmem => h.messages.sent (hkept hmem)
  · intro other hmem haccepted
    rcases hbooks.mp haccepted with ⟨-, rfl⟩ | hold
    · exact hgone hmem
    · exact h.messages.fresh (hkept hmem) hold
  · intro other haccepted
    rcases hbooks.mp haccepted with ⟨-, rfl⟩ | hold
    · exact hposted
    · exact h.messages.accepted hold
  · intro other reply' hmem
    rcases List.mem_cons.mp hmem with heq | hmem
    · cases heq
      refine ⟨hposted, hgone, ?_⟩
      rw [hbooks]
      constructor
      · exact fun haccepts => Or.inl ⟨haccepts, rfl⟩
      · rintro (⟨haccepts, -⟩ | hold)
        · exact haccepts
        · exact absurd hold hfresh
    · obtain ⟨hposted', hnot, hiff⟩ := h.messages.replied hmem
      refine ⟨hposted', fun hin => hnot (hkept hin), ?_⟩
      rw [hbooks, hiff]
      constructor
      · exact Or.inr
      · rintro (⟨-, rfl⟩ | hold)
        · exact absurd hid hnot
        · exact hold
  · exact fun other hmem => hbooks.mpr (Or.inr hmem)
  · intro other hother hin
    apply hother
    rcases hin with haccepted | hin
    · rcases hbooks.mp haccepted with ⟨-, rfl⟩ | hold
      · exact Or.inr hid
      · exact Or.inl hold
    · exact Or.inr (hkept hin)

/-! ### Every step -/

/-- The claimed row of a worker is as its own commit left it. -/
private theorem outcomeInv_commitClaim {s : Queue} (hinv : Inv s) (h : OutcomeInv s) {a : ActorId}
    {job : LiveJob} (hx : s.actors a = .claiming job) :
    OutcomeInv { s.move a (.holding job) with rows := s.settleRows a job.id true } := by
  have hlocks := hinv.locks a
  rw [hx] at hlocks
  obtain ⟨old, new, hrow, hstatus, -⟩ := hlocks
  have hsession : SessionStep a s.rows (s.settleRows a job.id true) := settleRows_session hrow true
  refine h.moved ⟨rfl, rfl, rfl⟩ ⟨rfl, rfl, rfl, rfl, fun _ hid => hid⟩ ?_ ?_
    (fun hx => by cases hx) (fun hx => by cases hx) (h.truthful.of_session hsession)
  · intro b _ other hb
    exact Settled.of_session hsession (fun _ hrow => by simp [LiveJob.isPending, hrow])
      (h.claimed hb)
  · intro other hother
    cases hother
    refine ⟨new, ?_, hstatus⟩
    rw [settleRows_applied hrow, AList.lookup_insert]

private theorem OutcomeInv.excused_of_reject {s : Queue} (h : OutcomeInv s) {job : LiveJob}
    (hreply : (job.id, .notFilled) ∈ s.replies) : Excused s job.id := by
  obtain ⟨-, hnot, hiff⟩ := h.messages.replied hreply
  rintro (haccepted | hin)
  · cases hiff.mpr haccepted
  · exact absurd hin hnot

theorem OutcomeInv.loseRequest {s : Queue} (h : OutcomeInv s) (id : JobId) :
    OutcomeInv { s with inFlight := s.inFlight.filter (· ≠ id) } := by
  have hkept : ∀ {other}, other ∈ s.inFlight.filter (· ≠ id) → other ∈ s.inFlight :=
    fun hmem => List.mem_of_mem_filter hmem
  refine h.of_messages rfl rfl ⟨?_, ?_, h.messages.accepted, ?_⟩ (fun _ hid => hid) ?_
  · exact fun hmem => h.messages.sent (hkept hmem)
  · exact fun hmem => h.messages.fresh (hkept hmem)
  · intro other reply hmem
    obtain ⟨hposted, hnot, hiff⟩ := h.messages.replied hmem
    exact ⟨hposted, fun hin => hnot (hkept hin), hiff⟩
  · exact fun hother hin => hother (hin.imp_right hkept)

theorem OutcomeInv.effect {s s' : Queue} {act : Action} (h : OutcomeInv s) (hinv : Inv s)
    (hs : s.Effect act s') : OutcomeInv s' := by
  have hfaults : ∀ id ∈ s.faults, id ∈ s.faults := fun _ hid => hid
  cases hs with
  | stay => exact h
  | move a x _ hjob =>
      exact h.session ⟨rfl, rfl, rfl⟩ ⟨rfl, rfl, rfl, rfl, hfaults⟩
        (TxnStep.refl SameOrder.refl a s.rows) hjob
  | insert hstatus _ hrows =>
      exact h.insert ⟨rfl, rfl, rfl⟩ ⟨rfl, rfl, rfl, rfl, hfaults⟩ hstatus hrows
  | cancel hrows =>
      exact h.session ⟨rfl, rfl, rfl⟩ ⟨rfl, rfl, rfl, rfl, hfaults⟩ (cancelUpdate_spec hrows).1 rfl
  | select _ hrows =>
      exact h.session ⟨rfl, rfl, rfl⟩ ⟨rfl, rfl, rfl, rfl, hfaults⟩
        (acquire_txnStep SameOrder.refl hrows) rfl
  | claim _ hrows =>
      exact h.session ⟨rfl, rfl, rfl⟩ ⟨rfl, rfl, rfl, rfl, hfaults⟩
        (rewrite_txnStep SameOrder.refl (SameOrder.claim _) hrows) rfl
  | settle hid applied =>
      obtain ⟨committed, version, hrow⟩ := (hinv.locks _).held hid
      exact h.session ⟨rfl, rfl, rfl⟩ ⟨rfl, rfl, rfl, rfl, hfaults⟩
        (settleRows_session hrow applied) rfl
  | commitCancel hx applied =>
      obtain ⟨committed, version, hrow⟩ := (hinv.locks _).held (by rw [hx]; rfl)
      exact h.session ⟨rfl, rfl, rfl⟩ ⟨rfl, rfl, rfl, rfl, hfaults⟩
        (settleRows_session hrow applied) rfl
  | commitClaim hx => exact outcomeInv_commitClaim hinv h hx
  | abandon a =>
      exact h.session ⟨rfl, rfl, rfl⟩ ⟨rfl, rfl, rfl, rfl, hfaults⟩ (abandon_session hinv a) rfl
  | giveUp hx =>
      exact h.quiet ⟨rfl, rfl, rfl⟩ ⟨rfl, rfl, rfl, rfl, hfaults⟩ rfl (fun hy => by cases hy)
        (fun hy => by cases hy; exact h.excused_of_holding hinv hx)
  | post hx => exact h.post hinv hx rfl rfl rfl rfl rfl rfl rfl
  | answer _ hreply =>
      have haccepted := (h.messages.replied hreply).2.2.mp rfl
      exact h.quiet ⟨rfl, rfl, rfl⟩ ⟨rfl, rfl, rfl, rfl, hfaults⟩ rfl
        (fun hy => by cases hy; exact haccepted) (fun hy => by cases hy)
  | reject _ hreply =>
      exact h.quiet ⟨rfl, rfl, rfl⟩ ⟨rfl, rfl, rfl, rfl, hfaults⟩ rfl (fun hy => by cases hy)
        (fun hy => by cases hy; exact h.excused_of_reject hreply)
  | fault _ => exact h.fault _ _
  | record hx hrows =>
      have haccepted := h.confirmed (by rw [hx]; rfl)
      exact h.write hinv ⟨rfl, rfl, rfl⟩ ⟨rfl, rfl, rfl, rfl, hfaults⟩ (by rw [hx]; rfl) hrows rfl
        (fun hy => by cases hy; exact haccepted) (fun hy => by cases hy) (fun _ => haccepted)
        (fun hy => by cases hy)
  | recordFault hx hrows =>
      have haccepted := h.confirmed (by rw [hx]; rfl)
      exact h.write hinv ⟨rfl, rfl, rfl⟩
        ⟨rfl, rfl, rfl, rfl, fun _ hid => List.mem_cons_of_mem _ hid⟩ (by rw [hx]; rfl) hrows rfl
        (fun hy => by cases hy) (fun hy => by cases hy; exact fun _ => List.mem_cons_self)
        (fun _ => haccepted) (fun hy => by cases hy)
  | recordFailed hx hrows =>
      have hexcused := h.failing (by rw [hx]; rfl)
      exact h.write hinv ⟨rfl, rfl, rfl⟩ ⟨rfl, rfl, rfl, rfl, hfaults⟩ (by rw [hx]; rfl) hrows rfl
        (fun hy => by cases hy) (fun hy => by cases hy) (fun hy => by cases hy) (fun _ => hexcused)
  | loseRequest id => exact h.loseRequest id
  | execute reply hid => exact h.execute hid
  | loseReply id =>
      refine h.of_messages rfl rfl
        ⟨h.messages.sent, h.messages.fresh, h.messages.accepted, fun hmem => ?_⟩
        (fun _ hid => hid) (fun hother => hother)
      exact h.messages.replied (List.mem_of_mem_filter hmem)

private theorem outcomeInv_step {s s' : Queue} {act : Action} (hinv : Inv s) (h : OutcomeInv s)
    (hs : s.step act = some s') : OutcomeInv s' :=
  h.effect hinv (Queue.effect_of_step hs)

private theorem outcomeInv_run {actions : List Action} {s : Queue} (h : Queue.run actions = some s) :
    OutcomeInv s := by
  have hstep : ∀ {s act s'}, Inv s ∧ OutcomeInv s → Queue.step s act = some s' →
      Inv s' ∧ OutcomeInv s' :=
    fun hboth hs => ⟨inv_step hboth.1 hs, outcomeInv_step hboth.1 hboth.2 hs⟩
  exact (runFrom_invariant hstep ⟨inv_empty, outcomeInv_empty⟩ h).2

/-! ### The guarantee -/

private theorem mem_versions_of_committed? {rows : LiveJobs} {id : JobId} {job : LiveJob}
    (h : rows.committed? id = some job) : ∃ row, rows.lookup id = some row ∧ job ∈ row.versions := by
  obtain ⟨row, hrow, hjob⟩ := Option.bind_eq_some_iff.mp h
  refine ⟨row, hrow, ?_⟩
  obtain ⟨committed, lock⟩ := row
  cases hjob
  cases lock <;> simp [LockRow.versions]

/-- A stored `SUCCESS` means that the broker accepted the order, and so does no stored `FAILED`
unless the worker, having sent the order, timed out, could not read the answer of the bridge to an
accepted order, panicked, or was told that its `SUCCESS` write had failed. -/
theorem stored_outcome_agrees (actions : List Action) (s : Queue) (h : Queue.run actions = some s)
    (id : JobId) (job : LiveJob) (hrow : s.rows.committed? id = some job) :
    (job.status = .success → id ∈ s.accepted) ∧
      (job.status = .failed → id ∈ s.accepted → id ∈ s.faults) := by
  obtain ⟨row, hlookup, hmem⟩ := mem_versions_of_committed? hrow
  have htruthful := (outcomeInv_run h).truthful
  constructor
  · exact htruthful.success hlookup hmem
  · exact fun hstatus haccepted => htruthful.failed hlookup hmem hstatus (Or.inl haccepted)

/-- The bridge fills the order and answers after the client timeout. -/
def lateReply : List Action :=
  [.routeCheck 1 7 3 9, .enqueue 1 42 1 .null 5, .commit 1 .done, .beginTx 2, .claimSelect 2 42,
    .claimUpdate 2 6, .commit 2 .done, .post 2, .timeout 2, .execute 42 .filled,
    .writeFailed 2 8 .null .done]

theorem failed_although_accepted : ∃ s job, Queue.run lateReply = some s ∧
    s.rows.committed? 42 = some job ∧ job.status = .failed ∧ 42 ∈ s.accepted := by
  have hsome : (Queue.run lateReply).isSome = true := rfl
  exact ⟨(Queue.run lateReply).get hsome, _, (Option.some_get hsome).symm, rfl, rfl,
    List.mem_singleton_self 42⟩

theorem stored_outcome_agrees_of_lateReply : ∃ s job, Queue.run lateReply = some s ∧
    s.rows.committed? 42 = some job ∧ job.status = .failed ∧ 42 ∈ s.faults := by
  have hsome : (Queue.run lateReply).isSome = true := rfl
  have hrun : Queue.run lateReply = some ((Queue.run lateReply).get hsome) :=
    (Option.some_get hsome).symm
  exact ⟨_, _, hrun, rfl, rfl,
    (stored_outcome_agrees lateReply _ hrun 42 _ rfl).2 rfl
      (List.mem_singleton_self 42)⟩

end SphereFx.Live
