import Mathlib.Algebra.Order.BigOperators.Group.List
import SphereFx.Api.RateLimit

/-!
# What a client gets of the rate limiter

The rows of other clients are not counted, so that what happens to a client's requests depends on its
own requests and the clock. A client that makes them one after the other gets its hundred after every
quiet minute: the clock makes no difference to what follows until the next minute is over.
-/

namespace SphereFx.Api.Limiter

/-- A limiter as one client sees it. -/
structure ClientView where
  now : ℚ
  stage : Nat → Option LimitStage
  log : List Stamp
  passes : List Stamp
  rejections : List Stamp

section View

variable (clientOf : Nat → Nat) (client : Nat)

def ownStamps (stamps : List Stamp) : List Stamp := stamps.filter fun stamp => stamp.client = client

def view (s : Limiter) : ClientView where
  now := s.now
  stage call := if clientOf call = client then some (s.stage call) else none
  log := ownStamps client s.log
  passes := ownStamps client s.passes
  rejections := ownStamps client s.rejections

/-- The events that a client's view depends on. -/
def concerns : LimitEvent → Bool
  | .tick _ => true
  | .arrive call | .count call | .insert call | .commit call | .pass call | .fail call =>
      clientOf call = client

end View

variable {clientOf : Nat → Nat} {client : Nat}

def ClientView.setStage (v : ClientView) (call : Nat) (stage : LimitStage) : ClientView :=
  { v with stage := Function.update v.stage call (some stage) }

theorem view_setStage_own (s : Limiter) {call : Nat} (stage : LimitStage)
    (h : clientOf call = client) :
    view clientOf client (s.setStage call stage) = (view clientOf client s).setStage call stage := by
  simp only [view, ClientView.setStage, setStage, ClientView.mk.injEq, true_and, and_true]
  funext other
  by_cases hsame : other = call
  · simp only [hsame, Function.update_self, if_pos h]
  · simp only [Function.update_of_ne hsame]

theorem view_setStage_other (s : Limiter) {call : Nat} (stage : LimitStage)
    (h : clientOf call ≠ client) :
    view clientOf client (s.setStage call stage) = view clientOf client s := by
  simp only [view, setStage, ClientView.mk.injEq, true_and, and_true]
  funext other
  by_cases hsame : other = call
  · simp only [hsame, if_neg h]
  · simp only [Function.update_of_ne hsame]

theorem stampsAfter_own (stamps : List Stamp) (after : ℚ) :
    stampsAfter (ownStamps client stamps) client after = stampsAfter stamps client after := by
  unfold stampsAfter ownStamps
  rw [List.countP_filter]
  apply List.countP_congr
  intro stamp _
  simp only [Bool.and_eq_true, decide_eq_true_eq]
  tauto

theorem ownStamps_cons_other {stamp : Stamp} (h : stamp.client ≠ client) (stamps : List Stamp) :
    ownStamps client (stamp :: stamps) = ownStamps client stamps :=
  List.filter_cons_of_neg (by simpa using h)

theorem ownStamps_cons_own {stamp : Stamp} (h : stamp.client = client) (stamps : List Stamp) :
    ownStamps client (stamp :: stamps) = stamp :: ownStamps client stamps :=
  List.filter_cons_of_pos (by simpa using h)

/-- An event of another client shows nowhere. -/
theorem view_step_other {s : Limiter} {event : LimitEvent}
    (h : concerns clientOf client event = false) :
    view clientOf client (step clientOf s event) = view clientOf client s := by
  cases event with
  | tick seconds => cases h
  | arrive call =>
      have hother : clientOf call ≠ client := of_decide_eq_false h
      simp only [step]
      split
      · exact view_setStage_other s _ hother
      · rfl
  | count call =>
      have hother : clientOf call ≠ client := of_decide_eq_false h
      simp only [step]
      split
      · split
        · show ClientView.mk _ _ _ _ (ownStamps client (_ :: s.rejections)) = _
          rw [ownStamps_cons_other hother]
          exact view_setStage_other s _ hother
        · exact view_setStage_other s _ hother
      · rfl
  | insert call =>
      have hother : clientOf call ≠ client := of_decide_eq_false h
      simp only [step]
      split
      · exact view_setStage_other s _ hother
      · rfl
  | commit call =>
      have hother : clientOf call ≠ client := of_decide_eq_false h
      simp only [step]
      split
      · show ClientView.mk _ _ (ownStamps client (_ :: s.log)) _ _ = _
        rw [ownStamps_cons_other hother]
        exact view_setStage_other s _ hother
      · rfl
  | pass call =>
      have hother : clientOf call ≠ client := of_decide_eq_false h
      simp only [step]
      split
      · show ClientView.mk _ _ _ (ownStamps client (_ :: s.passes)) _ = _
        rw [ownStamps_cons_other hother]
        exact view_setStage_other s _ hother
      · rfl
  | fail call =>
      have hother : clientOf call ≠ client := of_decide_eq_false h
      simp only [step]
      split
      · rfl
      · rfl
      · rfl
      · exact view_setStage_other s _ hother

theorem stage_of_view {s t : Limiter} (h : view clientOf client s = view clientOf client t) {call : Nat}
    (hcall : clientOf call = client) : s.stage call = t.stage call := by
  have hstage := congrFun (congrArg ClientView.stage h) call
  simpa only [view, if_pos hcall, Option.some.injEq] using hstage

private theorem now_of_view {s t : Limiter} (h : view clientOf client s = view clientOf client t) :
    s.now = t.now := congrArg ClientView.now h

theorem count_of_view {s t : Limiter} (h : view clientOf client s = view clientOf client t) (after : ℚ) :
    stampsAfter s.log client after = stampsAfter t.log client after := by
  have hlog : ownStamps client s.log = ownStamps client t.log := congrArg ClientView.log h
  rw [← stampsAfter_own s.log, hlog, stampsAfter_own]

theorem setStage_agrees {s t : Limiter} (h : view clientOf client s = view clientOf client t) {call : Nat}
    (stage : LimitStage) (hcall : clientOf call = client) :
    view clientOf client (s.setStage call stage) = view clientOf client (t.setStage call stage) := by
  rw [view_setStage_own s stage hcall, view_setStage_own t stage hcall, h]

/-- An event of the client changes what it sees by what it sees. -/
private theorem view_step_own {s t : Limiter} {event : LimitEvent} (h : concerns clientOf client event = true)
    (hview : view clientOf client s = view clientOf client t) :
    view clientOf client (step clientOf s event) = view clientOf client (step clientOf t event) := by
  have hnow := now_of_view hview
  cases event with
  | tick seconds =>
      show ClientView.mk (s.now + max seconds 0) _ _ _ _ = ClientView.mk (t.now + max seconds 0) _ _ _ _
      rw [hnow]
      exact congrArg (fun v : ClientView => { v with now := t.now + max seconds 0 }) hview
  | arrive call =>
      have hown : clientOf call = client := of_decide_eq_true h
      simp only [step, stage_of_view hview hown, hnow]
      split
      · exact setStage_agrees hview _ hown
      · exact hview
  | count call =>
      have hown : clientOf call = client := of_decide_eq_true h
      simp only [step, stage_of_view hview hown, hnow]
      split
      · next cutoff hstage =>
        rw [hown, count_of_view hview]
        split
        · have hagree := setStage_agrees hview .rejected hown
          show ClientView.mk _ _ _ _ (ownStamps client (_ :: s.rejections)) =
            ClientView.mk _ _ _ _ (ownStamps client (_ :: t.rejections))
          rw [@ownStamps_cons_own client ⟨client, t.now⟩ rfl, @ownStamps_cons_own client ⟨client, t.now⟩ rfl]
          exact congrArg (fun v : ClientView =>
            { v with rejections := ⟨client, t.now⟩ :: v.rejections }) hagree
        · exact setStage_agrees hview _ hown
      · exact hview
  | insert call =>
      have hown : clientOf call = client := of_decide_eq_true h
      simp only [step, stage_of_view hview hown, hnow]
      split
      · exact setStage_agrees hview _ hown
      · exact hview
  | commit call =>
      have hown : clientOf call = client := of_decide_eq_true h
      simp only [step, stage_of_view hview hown]
      split
      · next createdAt hstage =>
        have hagree := setStage_agrees hview .committed hown
        show ClientView.mk _ _ (ownStamps client (_ :: s.log)) _ _ =
          ClientView.mk _ _ (ownStamps client (_ :: t.log)) _ _
        rw [ownStamps_cons_own hown, ownStamps_cons_own hown]
        exact congrArg (fun v : ClientView =>
          { v with log := ⟨clientOf call, createdAt⟩ :: v.log }) hagree
      · exact hview
  | pass call =>
      have hown : clientOf call = client := of_decide_eq_true h
      simp only [step, stage_of_view hview hown, hnow]
      split
      · have hagree := setStage_agrees hview .passed hown
        show ClientView.mk _ _ _ (ownStamps client (_ :: s.passes)) _ =
          ClientView.mk _ _ _ (ownStamps client (_ :: t.passes)) _
        rw [ownStamps_cons_own hown, ownStamps_cons_own hown]
        exact congrArg (fun v : ClientView =>
          { v with passes := ⟨clientOf call, t.now⟩ :: v.passes }) hagree
      · exact hview
  | fail call =>
      have hown : clientOf call = client := of_decide_eq_true h
      simp only [step, stage_of_view hview hown]
      split
      · exact hview
      · exact hview
      · exact hview
      · exact setStage_agrees hview _ hown

/-- The requests of the other clients make no difference to a client: its requests go the same way, at
the same times, when the events of the others are left out. -/
theorem clients_independent (clientOf : Nat → Nat) (client : Nat) (events : List LimitEvent) :
    view clientOf client (events.foldl (step clientOf) initial) =
      view clientOf client ((events.filter (concerns clientOf client)).foldl (step clientOf) initial) :=
  view_foldl_filter view_step_other view_step_own rfl events

/-! ### A quiet minute -/

/-- No row is of a later time than now. -/
structure Timed (s : Limiter) : Prop where
  log : ∀ stamp ∈ s.log, stamp.time ≤ s.now
  created : ∀ call time, s.stage call = .inserted time → time ≤ s.now

theorem Timed.setStage {s : Limiter} (h : s.Timed) {call : Nat} {stage : LimitStage}
    (hcreated : ∀ time, stage = .inserted time → time ≤ s.now) : (s.setStage call stage).Timed where
  log := h.log
  created other time hother := by
    by_cases hsame : other = call
    · rw [hsame, stage_setStage_self] at hother
      exact hcreated time hother
    · rw [stage_setStage_of_ne s stage hsame] at hother
      exact h.created other time hother

theorem Timed.step {s : Limiter} (h : s.Timed) {event : LimitEvent} : (step clientOf s event).Timed := by
  cases event with
  | tick seconds =>
      have hlater : s.now ≤ s.now + max seconds 0 := le_add_of_nonneg_right (le_max_right _ _)
      exact ⟨fun stamp hstamp => (h.log stamp hstamp).trans hlater,
        fun call time hstage => (h.created call time hstage).trans hlater⟩
  | arrive call =>
      simp only [Limiter.step]
      split
      · have harrived : (s.setStage call (.arrived (s.now - windowSeconds))).Timed := h.setStage (by simp)
        exact ⟨harrived.log, harrived.created⟩
      · exact h
  | count call =>
      simp only [Limiter.step]
      split
      · split
        · have hrejected : (s.setStage call .rejected).Timed := h.setStage (by simp)
          exact ⟨hrejected.log, hrejected.created⟩
        · exact h.setStage (by simp)
      · exact h
  | insert call =>
      simp only [Limiter.step]
      split
      · exact h.setStage fun time htime => (LimitStage.inserted.inj htime).ge
      · exact h
  | commit call =>
      simp only [Limiter.step]
      split
      · next createdAt hstage =>
        have hcommitted : (s.setStage call .committed).Timed := h.setStage (by simp)
        refine ⟨fun stamp hstamp => ?_, hcommitted.created⟩
        rcases List.mem_cons.mp hstamp with rfl | hold
        · exact h.created call createdAt hstage
        · exact h.log stamp hold
      · exact h
  | pass call =>
      simp only [Limiter.step]
      split
      · have hpassed : (s.setStage call .passed).Timed := h.setStage (by simp)
        exact ⟨hpassed.log, hpassed.created⟩
      · exact h
  | fail call =>
      simp only [Limiter.step]
      split
      · exact h
      · exact h
      · exact h
      · exact h.setStage (by simp)

/-- One request from its arrival to its end. -/
def serve (call : Nat) : List LimitEvent :=
  [.arrive call, .count call, .insert call, .commit call, .pass call]

/-- How far an event moves the clock. -/
def seconds : LimitEvent → ℚ
  | .tick passed => max passed 0
  | _ => 0

def elapsed (events : List LimitEvent) : ℚ := (events.map seconds).sum

theorem seconds_nonneg (event : LimitEvent) : 0 ≤ seconds event := by
  cases event with
  | tick passed => exact le_max_right _ _
  | _ => exact le_rfl

private theorem now_step (s : Limiter) (event : LimitEvent) :
    (step clientOf s event).now = s.now + seconds event := by
  cases event with
  | tick passed => rfl
  | _ =>
      simp only [step, seconds, add_zero]
      repeat' split
      all_goals rfl

/-- The events of a client's requests. -/
def calling (clientOf : Nat → Nat) (client : Nat) (event : LimitEvent) : Bool :=
  match event with
  | .tick _ => false
  | event => concerns clientOf client event

/-- Where a request stands, and where it would stand if the clock had stopped at the start. -/
inductive SameStage (start : ℚ) : LimitStage → LimitStage → Prop where
  | idle : SameStage start .idle .idle
  | arrived {cutoff : ℚ} (hafter : start - windowSeconds ≤ cutoff) (hbefore : cutoff < start) :
      SameStage start (.arrived cutoff) (.arrived (start - windowSeconds))
  | admitted : SameStage start .admitted .admitted
  | inserted {time : ℚ} (hafter : start ≤ time) : SameStage start (.inserted time) (.inserted start)
  | committed : SameStage start .committed .committed
  | passed : SameStage start .passed .passed
  | rejected : SameStage start .rejected .rejected

/-- A limiter and one whose clock stopped at the start, for some requests of a client: a cutoff before
the start counts all the rows since, and none of those a minute older. -/
structure Stopped (client : Nat) (calls : List Nat) (start : ℚ) (s t : Limiter) : Prop where
  started : start ≤ s.now
  now : t.now = start
  stage : ∀ call ∈ calls, SameStage start (s.stage call) (t.stage call)
  count : ∀ cutoff, start - windowSeconds ≤ cutoff → cutoff < start →
    stampsAfter s.log client cutoff = stampsAfter t.log client (start - windowSeconds)

section Stopped

variable {calls : List Nat} {start : ℚ} {s s' t : Limiter}

theorem Stopped.setStage (h : Stopped client calls start s t) (call : Nat) {x y : LimitStage}
    (hsame : SameStage start x y) :
    Stopped client calls start (s.setStage call x) (t.setStage call y) where
  started := h.started
  now := h.now
  stage other hother := by
    by_cases heq : other = call
    · rw [heq, stage_setStage_self, stage_setStage_self]
      exact hsame
    · rw [stage_setStage_of_ne s x heq, stage_setStage_of_ne t y heq]
      exact h.stage other hother
  count := h.count

theorem Stopped.of_view (h : Stopped client calls start s t)
    (hown : ∀ call ∈ calls, clientOf call = client) (hnow : start ≤ s'.now)
    (hstage : ∀ call, clientOf call = client → s'.stage call = s.stage call)
    (hcount : ∀ cutoff, stampsAfter s'.log client cutoff = stampsAfter s.log client cutoff) :
    Stopped client calls start s' t where
  started := hnow
  now := h.now
  stage call hcall := by
    rw [hstage call (hown call hcall)]
    exact h.stage call hcall
  count cutoff hafter hbefore := (hcount cutoff).trans (h.count cutoff hafter hbefore)

theorem Stopped.logged (h : Stopped client calls start s t) {time : ℚ} (htime : start ≤ time) :
    Stopped client calls start { s with log := ⟨client, time⟩ :: s.log }
      { t with log := ⟨client, start⟩ :: t.log } where
  started := h.started
  now := h.now
  stage := h.stage
  count cutoff hafter hbefore := by
    have hstart : start - windowSeconds < start := hafter.trans_lt hbefore
    have hold := h.count cutoff hafter hbefore
    unfold stampsAfter at hold ⊢
    rw [List.countP_cons_of_pos (by simpa using hbefore.trans_le htime),
      List.countP_cons_of_pos (by simpa using hstart), hold]

/-- A step of a request, before a minute is over. -/
theorem Stopped.serve (h : Stopped client calls start s t) (hlate : s.now < start + windowSeconds)
    {call : Nat} (hcall : call ∈ calls) (hown : clientOf call = client) {event : LimitEvent}
    (hevent : event ∈ serve call) :
    Stopped client calls start (step clientOf s event) (step clientOf t event) := by
  obtain ⟨x, hx⟩ : ∃ x, s.stage call = x := ⟨_, rfl⟩
  obtain ⟨y, hy⟩ : ∃ y, t.stage call = y := ⟨_, rfl⟩
  have hsame : SameStage start x y := hx ▸ hy ▸ h.stage call hcall
  simp only [Limiter.serve, List.mem_cons, List.not_mem_nil, or_false] at hevent
  rcases hevent with rfl | rfl | rfl | rfl | rfl
  · simp only [step, hx, hy]
    cases hsame with
    | idle =>
        have hcutoff : SameStage start (.arrived (s.now - windowSeconds))
            (.arrived (t.now - windowSeconds)) := by
          rw [h.now]
          exact .arrived (sub_le_sub_right h.started _) (by linarith)
        have hset := h.setStage call hcutoff
        exact ⟨hset.started, hset.now, hset.stage, hset.count⟩
    | _ => exact h
  · simp only [step, hx, hy]
    cases hsame with
    | arrived hafter hbefore =>
        simp only [hown, h.count _ hafter hbefore]
        split
        · have hset := h.setStage call .rejected
          exact ⟨hset.started, hset.now, hset.stage, hset.count⟩
        · exact h.setStage call .admitted
    | _ => exact h
  · simp only [step, hx, hy]
    cases hsame with
    | admitted =>
        rw [h.now]
        exact h.setStage call (.inserted h.started)
    | _ => exact h
  · simp only [step, hx, hy]
    cases hsame with
    | inserted hafter =>
        rw [hown]
        exact (h.setStage call .committed).logged hafter
    | _ => exact h
  · simp only [step, hx, hy]
    cases hsame with
    | committed =>
        have hset := h.setStage call .passed
        exact ⟨hset.started, hset.now, hset.stage, hset.count⟩
    | _ => exact h

/-- Within a minute the requests end as if the clock had stopped. -/
theorem Stopped.run {events : List LimitEvent} (h : Stopped client calls start s t)
    (hown : ∀ call ∈ calls, clientOf call = client)
    (htime : s.now + elapsed events < start + windowSeconds)
    (hcalls : ∀ event ∈ events.filter (calling clientOf client), ∃ call ∈ calls, event ∈ Limiter.serve call) :
    Stopped client calls start (events.foldl (step clientOf) s)
      ((events.filter (calling clientOf client)).foldl (step clientOf) t) := by
  induction events generalizing s t with
  | nil => exact h
  | cons event rest ih =>
      have hrest : 0 ≤ elapsed rest := by
        refine List.sum_nonneg fun time htime => ?_
        obtain ⟨other, -, rfl⟩ := List.mem_map.mp htime
        exact seconds_nonneg other
      have hsum : elapsed (event :: rest) = seconds event + elapsed rest := List.sum_cons
      have hpositive := seconds_nonneg event
      have hnow : (step clientOf s event).now = s.now + seconds event := now_step s event
      rw [hsum, ← add_assoc, ← hnow] at htime
      by_cases hcalling : calling clientOf client event = true
      · rw [List.filter_cons_of_pos hcalling] at hcalls ⊢
        obtain ⟨call, hcall, hevent⟩ := hcalls event List.mem_cons_self
        have hlate : s.now < start + windowSeconds := by linarith
        exact ih (h.serve hlate hcall (hown call hcall) hevent) htime
          fun other hother => hcalls other (List.mem_cons_of_mem _ hother)
      · rw [List.filter_cons_of_neg hcalling] at hcalls ⊢
        have hstarted : start ≤ (step clientOf s event).now := by linarith [h.started]
        refine ih (h.of_view hown hstarted ?_ ?_) htime hcalls
        · cases event with
          | tick seconds => exact fun call _ => rfl
          | _ => exact fun call hclient =>
              stage_of_view (view_step_other (Bool.not_eq_true _ ▸ hcalling)) hclient
        · cases event with
          | tick seconds => exact fun cutoff => rfl
          | _ => exact count_of_view (view_step_other (Bool.not_eq_true _ ▸ hcalling))

end Stopped

end SphereFx.Api.Limiter
