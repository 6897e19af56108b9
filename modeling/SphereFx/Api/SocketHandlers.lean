import SphereFx.Base.Run
import SphereFx.Api.Connections

/-!
# The socket handlers

Any number of handlers of `backtest_logs_websocket` and `live_updates_websocket` around the one
connection manager. Both register the socket first and look the run or the account up afterwards. What
ends a handler before its `try` block ends it without clean-up; what ends it later goes through
`finally`, where the backtest handler drops the subscription of the run and the live handler drops none.
-/

namespace SphereFx.Api

/-- Where the handler of a socket stands. -/
inductive HandlerStage where
  | idle
  /-- The socket is registered and the run or account is looked up. -/
  | verifying (job : Job)
  | serving (job : Job)
  | returned
  deriving DecidableEq

def HandlerStage.isOpenOn (job : Job) (stage : HandlerStage) : Bool :=
  stage = .verifying job ∨ stage = .serving job

structure Handlers where
  manager : Manager
  stage : Nat → HandlerStage

inductive HandlerEvent where
  | connect (socket : Nat) (job : Job) (layout : Layout)
  /-- Nothing found, a run that is done, or an exception before the `try` block. -/
  | leave (socket : Nat)
  | subscribe (socket : Nat)
  /-- A cancellation, a disconnect or an exception in the `try` block, and its `finally`. -/
  | finish (socket : Nat)

namespace Handlers

def initial : Handlers := ⟨.empty, fun _ => .idle⟩

def setStage (s : Handlers) (socket : Nat) (stage : HandlerStage) : Nat → HandlerStage :=
  Function.update s.stage socket stage

/-- The `finally` block. -/
def cleanUp (manager : Manager) (socket user : Nat) : Job → Manager
  | .backtest run => (manager.unsubscribeFromJob (.backtest run)).disconnect socket user
  | .account _ => manager.disconnect socket user

variable (userOf : Nat → Nat) (ownerOf : Job → Nat)

def step (s : Handlers) : HandlerEvent → Handlers
  | .connect socket job layout =>
      match s.stage socket with
      | .idle =>
          ⟨s.manager.connect socket (userOf socket) layout, s.setStage socket (.verifying job)⟩
      | _ => s
  | .leave socket =>
      match s.stage socket with
      | .verifying _ => ⟨s.manager, s.setStage socket .returned⟩
      | _ => s
  | .subscribe socket =>
      match s.stage socket with
      | .verifying job =>
          if ownerOf job = userOf socket then
            ⟨s.manager.subscribeToJob (userOf socket) job, s.setStage socket (.serving job)⟩
          else s
      | _ => s
  | .finish socket =>
      match s.stage socket with
      | .serving job => ⟨cleanUp s.manager socket (userOf socket) job, s.setStage socket .returned⟩
      | _ => s

/-! ### Clean registrations -/

/-- The sockets of returned handlers are gone, every subscription has an open handler, no user has an
empty set, and the open handlers are registered and subscribed. -/
structure Clean (manager : Manager) (stage : Nat → HandlerStage) : Prop where
  returned : ∀ socket, stage socket = .returned → ∀ user, ¬ manager.Registered user socket
  subscriptions : ∀ job user, manager.jobs job = some user →
    ∃ socket, (stage socket).isOpenOn job = true ∧ userOf socket = user
  nonempty : ∀ entry ∈ manager.users.elems, (manager.sets entry.2).elems ≠ []
  connections : ∀ socket job, (stage socket).isOpenOn job = true →
    manager.Registered (userOf socket) socket
  jobs : ∀ socket job, stage socket = .serving job → manager.jobs job = some (userOf socket)

/-- No handler returns before its `try` block; a backtest handler finishes when no other handler serves
the same run, and a live handler while another handler of the user is open on the account. -/
def EndsCleanly (s : Handlers) : HandlerEvent → Prop
  | .leave socket => ∀ job, s.stage socket ≠ .verifying job
  | .finish socket =>
      (∀ run, s.stage socket = .serving (.backtest run) →
        ∀ other ≠ socket, s.stage other ≠ .serving (.backtest run)) ∧
      ∀ account, s.stage socket = .serving (.account account) →
        ∃ other ≠ socket, (s.stage other).isOpenOn (.account account) = true ∧
          userOf other = userOf socket
  | _ => True

/-- Clean, with a well-formed manager and handlers that serve jobs of their own user. -/
structure Tidy (manager : Manager) (stage : Nat → HandlerStage) : Prop where
  wellFormed : manager.WellFormed userOf
  owned : ∀ socket job, stage socket = .serving job → ownerOf job = userOf socket
  clean : Clean userOf manager stage

variable {userOf : Nat → Nat} {ownerOf : Job → Nat} {s : Handlers}

theorem isOpenOn_verifying {job job' : Job} :
    (HandlerStage.verifying job).isOpenOn job' = true ↔ job = job' := by
  simp [HandlerStage.isOpenOn]

theorem isOpenOn_serving {job job' : Job} :
    (HandlerStage.serving job).isOpenOn job' = true ↔ job = job' := by
  simp [HandlerStage.isOpenOn]

theorem setStage_self (s : Handlers) (socket : Nat) (stage : HandlerStage) :
    s.setStage socket stage socket = stage := Function.update_self _ _ _

theorem setStage_of_ne {socket other : Nat} (stage : HandlerStage) (h : other ≠ socket) :
    s.setStage socket stage other = s.stage other := Function.update_of_ne h _ _

private theorem tidy_initial (userOf : Nat → Nat) (ownerOf : Job → Nat) :
    Tidy userOf ownerOf initial.manager initial.stage where
  wellFormed := Manager.wellFormed_empty userOf
  owned _ _ h := by cases h
  clean :=
    { returned := fun _ h => by cases h
      subscriptions := fun _ _ h => by cases h
      nonempty := List.forall_mem_nil _
      connections := fun _ _ h => by cases h
      jobs := fun _ _ h => by cases h }

/-- A new handler registers its socket and touches nothing else. -/
theorem Tidy.connect (h : Tidy userOf ownerOf s.manager s.stage) {socket : Nat} (job : Job) (layout : Layout)
    (hidle : s.stage socket = .idle) : Tidy userOf ownerOf
      (s.manager.connect socket (userOf socket) layout) (s.setStage socket (.verifying job)) := by
  have hold : ∀ other job', (s.stage other).isOpenOn job' = true → other ≠ socket := by
    rintro other job' hopen rfl
    rw [hidle] at hopen
    cases hopen
  refine ⟨h.wellFormed.connect socket layout, fun other job' hserving => ?_, ?_⟩
  · by_cases hsame : other = socket
    · rw [hsame, setStage_self] at hserving
      cases hserving
    · rw [setStage_of_ne _ hsame] at hserving
      exact h.owned other job' hserving
  · constructor
    · intro other hreturned user hregistered
      by_cases hsame : other = socket
      · rw [hsame, setStage_self] at hreturned
        cases hreturned
      · rw [setStage_of_ne _ hsame] at hreturned
        rcases (Manager.registered_connect h.wellFormed socket layout).mp hregistered with
          hregistered | ⟨-, heq⟩
        · exact h.clean.returned other hreturned user hregistered
        · exact hsame heq
    · intro job' user hjob
      rw [Manager.jobs_connect] at hjob
      obtain ⟨other, hopen, huser⟩ := h.clean.subscriptions job' user hjob
      refine ⟨other, ?_, huser⟩
      rw [setStage_of_ne _ (hold other job' hopen)]
      exact hopen
    · exact (h.wellFormed.connect socket layout).nonempty
    · intro other job' hopen
      rw [Manager.registered_connect h.wellFormed]
      by_cases hsame : other = socket
      · exact Or.inr ⟨congrArg userOf hsame, hsame⟩
      · rw [setStage_of_ne _ hsame] at hopen
        exact Or.inl (h.clean.connections other job' hopen)
    · intro other job' hserving
      rw [Manager.jobs_connect]
      by_cases hsame : other = socket
      · rw [hsame, setStage_self] at hserving
        cases hserving
      · rw [setStage_of_ne _ hsame] at hserving
        exact h.clean.jobs other job' hserving

/-- A handler of the owner starts to serve. -/
theorem Tidy.subscribe (h : Tidy userOf ownerOf s.manager s.stage) {socket : Nat} {job : Job}
    (hverifying : s.stage socket = .verifying job) (howner : ownerOf job = userOf socket) :
    Tidy userOf ownerOf (s.manager.subscribeToJob (userOf socket) job)
      (s.setStage socket (.serving job)) := by
  have hopen : ∀ other job', (s.setStage socket (.serving job) other).isOpenOn job' = true ↔
      (s.stage other).isOpenOn job' = true := by
    intro other job'
    by_cases hsame : other = socket
    · rw [hsame, setStage_self, hverifying, isOpenOn_serving, isOpenOn_verifying]
    · rw [setStage_of_ne _ hsame]
  have howned : ∀ other job', s.setStage socket (.serving job) other = .serving job' →
      ownerOf job' = userOf other := by
    intro other job' hserving
    by_cases hsame : other = socket
    · rw [hsame, setStage_self] at hserving
      cases hserving
      rw [hsame, howner]
    · rw [setStage_of_ne _ hsame] at hserving
      exact h.owned other job' hserving
  refine ⟨h.wellFormed.withJobs _, howned, ?_⟩
  constructor
  · intro other hreturned
    by_cases hsame : other = socket
    · rw [hsame, setStage_self] at hreturned
      cases hreturned
    · rw [setStage_of_ne _ hsame] at hreturned
      exact h.clean.returned other hreturned
  · intro job' user hjob
    by_cases hsame : job' = job
    · rw [hsame, Manager.jobs_subscribe_self] at hjob
      refine ⟨socket, ?_, Option.some.inj hjob⟩
      rw [setStage_self, hsame, isOpenOn_serving]
    · rw [Manager.jobs_subscribe_of_ne _ _ hsame] at hjob
      obtain ⟨other, hother, huser⟩ := h.clean.subscriptions job' user hjob
      exact ⟨other, (hopen other job').mpr hother, huser⟩
  · exact h.clean.nonempty
  · exact fun other job' hother => h.clean.connections other job' ((hopen other job').mp hother)
  · intro other job' hserving
    by_cases hsame : job' = job
    · rw [hsame, Manager.jobs_subscribe_self, ← howner, ← hsame]
      exact congrArg some (howned other job' hserving)
    · have hne : other ≠ socket := by
        rintro rfl
        rw [setStage_self] at hserving
        exact hsame (HandlerStage.serving.inj hserving).symm
      rw [setStage_of_ne _ hne] at hserving
      rw [Manager.jobs_subscribe_of_ne _ _ hsame]
      exact h.clean.jobs other job' hserving

theorem wellFormed_cleanUp {manager : Manager} (hm : manager.WellFormed userOf) (socket : Nat)
    (job : Job) : (cleanUp manager socket (userOf socket) job).WellFormed userOf := by
  cases job with
  | backtest run => exact Manager.WellFormed.disconnect (hm.withJobs _) socket
  | account id => exact hm.disconnect socket

theorem registered_cleanUp {manager : Manager} (hm : manager.WellFormed userOf) (socket : Nat)
    (job : Job) {user other : Nat} :
    (cleanUp manager socket (userOf socket) job).Registered user other ↔
      manager.Registered user other ∧ other ≠ socket := by
  cases job with
  | backtest run => exact Manager.registered_disconnect (hm.withJobs _) socket
  | account id => exact Manager.registered_disconnect hm socket

theorem jobs_cleanUp (manager : Manager) (socket user : Nat) (job job' : Job) :
    (cleanUp manager socket user job).jobs job' =
      if job.isBacktest = true ∧ job' = job then none else manager.jobs job' := by
  cases job with
  | backtest run =>
      rw [cleanUp, Manager.jobs_disconnect]
      by_cases hsame : job' = .backtest run
      · rw [hsame, Manager.jobs_unsubscribe_self, if_pos ⟨rfl, rfl⟩]
      · rw [Manager.jobs_unsubscribe_of_ne _ hsame, if_neg fun h => hsame h.2]
  | account id =>
      rw [cleanUp, Manager.jobs_disconnect, if_neg fun h => Bool.false_ne_true h.1]

/-- A handler that ends as the condition asks leaves the others as they are. -/
theorem Tidy.finish (h : Tidy userOf ownerOf s.manager s.stage) {socket : Nat} {job : Job}
    (hserving : s.stage socket = .serving job) (hends : s.EndsCleanly userOf (.finish socket)) :
    Tidy userOf ownerOf (cleanUp s.manager socket (userOf socket) job)
      (s.setStage socket .returned) := by
  have hne : ∀ other job', (s.setStage socket .returned other).isOpenOn job' = true →
      other ≠ socket := by
    rintro other job' hopen rfl
    rw [setStage_self] at hopen
    cases hopen
  have hneServing : ∀ other job', s.setStage socket .returned other = .serving job' →
      other ≠ socket := by
    rintro other job' hstage rfl
    rw [setStage_self] at hstage
    cases hstage
  refine ⟨wellFormed_cleanUp h.wellFormed socket job, fun other job' hstage => ?_, ?_⟩
  · rw [setStage_of_ne _ (hneServing other job' hstage)] at hstage
    exact h.owned other job' hstage
  · constructor
    · intro other hreturned user hregistered
      obtain ⟨hregistered, hsame⟩ := (registered_cleanUp h.wellFormed socket job).mp hregistered
      rw [setStage_of_ne _ hsame] at hreturned
      exact h.clean.returned other hreturned user hregistered
    · intro job' user hjob
      rw [jobs_cleanUp] at hjob
      obtain ⟨hkept, hjob⟩ := Option.ite_none_left_eq_some.mp hjob
      obtain ⟨other, hopen, huser⟩ := h.clean.subscriptions job' user hjob
      by_cases hsame : other = socket
      · -- The subscription was that of the handler, so it was a live handler with a companion.
        rw [hsame, hserving, isOpenOn_serving] at hopen
        subst hopen
        cases job with
        | backtest run => exact absurd ⟨rfl, rfl⟩ hkept
        | account id =>
            obtain ⟨companion, hcompanion, hopen', huser'⟩ := hends.2 id hserving
            refine ⟨companion, ?_, huser'.trans (hsame ▸ huser)⟩
            rw [setStage_of_ne _ hcompanion]
            exact hopen'
      · refine ⟨other, ?_, huser⟩
        rw [setStage_of_ne _ hsame]
        exact hopen
    · exact (wellFormed_cleanUp h.wellFormed socket job).nonempty
    · intro other job' hopen
      have hother := hne other job' hopen
      rw [setStage_of_ne _ hother] at hopen
      exact (registered_cleanUp h.wellFormed socket job).mpr
        ⟨h.clean.connections other job' hopen, hother⟩
    · intro other job' hstage
      have hother := hneServing other job' hstage
      rw [setStage_of_ne _ hother] at hstage
      rw [jobs_cleanUp, if_neg]
      · exact h.clean.jobs other job' hstage
      · rintro ⟨hbacktest, rfl⟩
        cases job' with
        | backtest run => exact hends.1 run hserving other hother hstage
        | account id => cases hbacktest

theorem Tidy.step (h : Tidy userOf ownerOf s.manager s.stage) {event : HandlerEvent}
    (hends : s.EndsCleanly userOf event) :
    Tidy userOf ownerOf (s.step userOf ownerOf event).manager (s.step userOf ownerOf event).stage := by
  cases event with
  | connect socket job layout =>
      simp only [Handlers.step]
      split
      · exact h.connect job layout ‹_›
      · exact h
  | leave socket =>
      simp only [Handlers.step]
      split
      · exact absurd ‹_› (hends _)
      · exact h
  | subscribe socket =>
      simp only [Handlers.step]
      split
      · split
        · exact h.subscribe ‹_› ‹_›
        · exact h
      · exact h
  | finish socket =>
      simp only [Handlers.step]
      split
      · exact h.finish ‹_› hends
      · exact h

/-- A clean state after a step means that the step has met the condition. -/
private theorem endsCleanly_of_clean (h : Tidy userOf ownerOf s.manager s.stage) {event : HandlerEvent}
    (hclean : Clean userOf (s.step userOf ownerOf event).manager
      (s.step userOf ownerOf event).stage) : s.EndsCleanly userOf event := by
  cases event with
  | connect socket job layout => exact trivial
  | subscribe socket => exact trivial
  | leave socket =>
      intro job hverifying
      simp only [Handlers.step, hverifying] at hclean
      refine hclean.returned socket (setStage_self s socket .returned) (userOf socket) ?_
      exact h.clean.connections socket job (by rw [hverifying, isOpenOn_verifying])
  | finish socket =>
      refine ⟨fun run hserving other hother hstage => ?_, fun account hserving => ?_⟩
      · simp only [Handlers.step, hserving] at hclean
        have hjob := hclean.jobs other (.backtest run)
          ((setStage_of_ne .returned hother).trans hstage)
        rw [jobs_cleanUp, if_pos ⟨rfl, rfl⟩] at hjob
        cases hjob
      · simp only [Handlers.step, hserving] at hclean
        have hjob : (cleanUp s.manager socket (userOf socket) (.account account)).jobs
            (.account account) = some (userOf socket) := by
          rw [jobs_cleanUp, if_neg fun h => Bool.false_ne_true h.1]
          exact h.clean.jobs socket _ hserving
        obtain ⟨other, hopen, huser⟩ := hclean.subscriptions _ _ hjob
        have hother : other ≠ socket := by
          rintro rfl
          rw [setStage_self] at hopen
          cases hopen
        rw [setStage_of_ne _ hother] at hopen
        exact ⟨other, hother, hopen, huser⟩

/-- The registrations stay clean exactly as long as every handler that ends does so as the condition
asks. -/
theorem clean_iff (userOf : Nat → Nat) (ownerOf : Job → Nat) (events : List HandlerEvent) :
    (∀ s ∈ visited (step userOf ownerOf) initial events, Clean userOf s.manager s.stage) ↔
      Along (step userOf ownerOf) (fun s event => s.EndsCleanly userOf event) initial events :=
  visited_iff_along (fun s : Handlers => Tidy userOf ownerOf s.manager s.stage)
    (fun s => Clean userOf s.manager s.stage) (fun h => h.clean)
    (fun h hends => h.step hends) (fun h hclean => endsCleanly_of_clean h hclean)
    (tidy_initial userOf ownerOf)

/-- A socket asks for a run that is not there. -/
theorem left_socket_stays :
    ¬ ∀ (userOf : Nat → Nat) (ownerOf : Job → Nat) (events : List HandlerEvent),
      ∀ s ∈ visited (step userOf ownerOf) initial events, Clean userOf s.manager s.stage := by
  intro h
  let events : List HandlerEvent := [.connect 3 (.backtest 5) ⟨[], []⟩, .leave 3]
  have hclean := h (fun _ => 1) (fun _ => 2) events _
    (foldl_mem_visited (step (fun _ => 1) fun _ => 2) initial events)
  exact hclean.returned 3 rfl 1 ⟨0, List.mem_singleton_self _, List.mem_singleton_self _⟩

end Handlers

end SphereFx.Api
