import Mathlib.Algebra.Order.Field.Rat
import Mathlib.Logic.Function.Basic
import Mathlib.Tactic.Linarith
import SphereFx.Base.Run

/-!
# The rate limiter

Concurrent calls of `rate_limit_middleware`. A call takes its cutoff, counts the committed rows of its
client after the cutoff, and inserts and commits a row of its own in statements of their own. Times are
seconds, and the application and the database read one clock.
-/

namespace SphereFx.Api

def requestLimit : Nat := 100

def windowSeconds : ℚ := 60

/-- Where a call stands. -/
inductive LimitStage where
  | idle
  | arrived (cutoff : ℚ)
  /-- The count was below the limit. -/
  | admitted
  | inserted (createdAt : ℚ)
  | committed
  | passed
  | rejected
  /-- A statement or the commit has raised. -/
  | failed

/-- A call that the count has let through and that goes on to the application. -/
def LimitStage.inFlight : LimitStage → Bool
  | .admitted => true
  | .inserted _ => true
  | .committed => true
  | _ => false

/-- An entry of a history: a client and a time. -/
structure Stamp where
  client : Nat
  time : ℚ

/-- The clock, the calls that have arrived, the committed rows of `rate_limit_log`, and the history of
the requests passed on and rejected. -/
structure Limiter where
  now : ℚ
  stage : Nat → LimitStage
  calls : List Nat
  log : List Stamp
  passes : List Stamp
  rejections : List Stamp

inductive LimitEvent where
  | tick (seconds : ℚ)
  | arrive (call : Nat)
  | count (call : Nat)
  | insert (call : Nat)
  | commit (call : Nat)
  | pass (call : Nat)
  | fail (call : Nat)

/-- The entries of a client after one time and up to another. -/
def stampsIn (stamps : List Stamp) (client : Nat) (after upTo : ℚ) : Nat :=
  stamps.countP fun stamp => stamp.client = client ∧ after < stamp.time ∧ stamp.time ≤ upTo

def stampsAfter (stamps : List Stamp) (client : Nat) (after : ℚ) : Nat :=
  stamps.countP fun stamp => stamp.client = client ∧ after < stamp.time

namespace Limiter

def initial : Limiter := ⟨0, fun _ => .idle, [], [], [], []⟩

def setStage (s : Limiter) (call : Nat) (stage : LimitStage) : Limiter :=
  { s with stage := Function.update s.stage call stage }

variable (clientOf : Nat → Nat)

/-- Calls of a client that the count has let through and that have not been passed on. -/
def inFlight (s : Limiter) (client : Nat) : Nat :=
  s.calls.countP fun call => clientOf call = client ∧ (s.stage call).inFlight = true

def step (s : Limiter) : LimitEvent → Limiter
  | .tick seconds => { s with now := s.now + max seconds 0 }
  | .arrive call =>
      match s.stage call with
      | .idle =>
          { s.setStage call (.arrived (s.now - windowSeconds)) with calls := call :: s.calls }
      | _ => s
  | .count call =>
      match s.stage call with
      | .arrived cutoff =>
          if requestLimit ≤ stampsAfter s.log (clientOf call) cutoff then
            { s.setStage call .rejected with rejections := ⟨clientOf call, s.now⟩ :: s.rejections }
          else s.setStage call .admitted
      | _ => s
  | .insert call =>
      match s.stage call with
      | .admitted => s.setStage call (.inserted s.now)
      | _ => s
  | .commit call =>
      match s.stage call with
      | .inserted createdAt =>
          { s.setStage call .committed with log := ⟨clientOf call, createdAt⟩ :: s.log }
      | _ => s
  | .pass call =>
      match s.stage call with
      | .committed => { s.setStage call .passed with passes := ⟨clientOf call, s.now⟩ :: s.passes }
      | _ => s
  | .fail call =>
      match s.stage call with
      | .idle => s
      | .passed => s
      | .rejected => s
      | _ => s.setStage call .failed

/-- At most the limit is passed on in any window, and at every rejection the limit was logged within the
window before it. -/
structure Bounded (s : Limiter) : Prop where
  passes : ∀ client after,
    stampsIn s.passes client after (after + windowSeconds) ≤ requestLimit
  rejections : ∀ stamp ∈ s.rejections,
    requestLimit ≤ stampsIn s.log stamp.client (stamp.time - windowSeconds) stamp.time

/-- A count lets a request through only if, with those passed on since the cutoff and those on their way,
the client is below the limit; and it finds the limit reached only if the rows still in the window reach
it. -/
def CountsAll (s : Limiter) : LimitEvent → Prop
  | .count call =>
      ∀ cutoff, s.stage call = .arrived cutoff →
        (stampsAfter s.log (clientOf call) cutoff < requestLimit →
          stampsAfter s.passes (clientOf call) cutoff + s.inFlight clientOf (clientOf call) <
            requestLimit) ∧
        (requestLimit ≤ stampsAfter s.log (clientOf call) cutoff →
          requestLimit ≤ stampsAfter s.log (clientOf call) (s.now - windowSeconds))
  | _ => True

instance (s : Limiter) (event : LimitEvent) : Decidable (s.CountsAll clientOf event) :=
  match event with
  | .count call =>
      match hstage : s.stage call with
      | .arrived cutoff =>
          decidable_of_iff
            ((stampsAfter s.log (clientOf call) cutoff < requestLimit →
              stampsAfter s.passes (clientOf call) cutoff + s.inFlight clientOf (clientOf call) <
                requestLimit) ∧
              (requestLimit ≤ stampsAfter s.log (clientOf call) cutoff →
                requestLimit ≤ stampsAfter s.log (clientOf call) (s.now - windowSeconds)))
            ⟨fun h other hother => by
              obtain rfl : cutoff = other := LimitStage.arrived.inj (hstage.symm.trans hother)
              exact h, fun h => h cutoff hstage⟩
      | .idle | .admitted | .inserted _ | .committed | .passed | .rejected | .failed =>
          isTrue fun cutoff hcutoff => by cases hstage.symm.trans hcutoff
  | .tick _ | .arrive _ | .insert _ | .commit _ | .pass _ | .fail _ => isTrue trivial

/-! ### Counting -/

variable {clientOf : Nat → Nat} {s : Limiter}

private theorem stampsAfter_mono {stamps : List Stamp} {client : Nat} {after after' : ℚ}
    (h : after ≤ after') : stampsAfter stamps client after' ≤ stampsAfter stamps client after := by
  refine List.countP_mono_left fun stamp _ hstamp => ?_
  obtain ⟨hclient, hafter⟩ := of_decide_eq_true hstamp
  exact decide_eq_true ⟨hclient, h.trans_lt hafter⟩

private theorem stampsIn_le_stampsAfter (stamps : List Stamp) (client : Nat) (after upTo : ℚ) :
    stampsIn stamps client after upTo ≤ stampsAfter stamps client after := by
  refine List.countP_mono_left fun stamp _ hstamp => ?_
  obtain ⟨hclient, hafter, -⟩ := of_decide_eq_true hstamp
  exact decide_eq_true ⟨hclient, hafter⟩

private theorem stampsAfter_le_stampsIn {stamps : List Stamp} {upTo : ℚ}
    (h : ∀ stamp ∈ stamps, stamp.time ≤ upTo) (client : Nat) (after : ℚ) :
    stampsAfter stamps client after ≤ stampsIn stamps client after upTo := by
  refine List.countP_mono_left fun stamp hmem hstamp => ?_
  obtain ⟨hclient, hafter⟩ := of_decide_eq_true hstamp
  exact decide_eq_true ⟨hclient, hafter, h stamp hmem⟩

private theorem stampsIn_cons_le (stamp : Stamp) (stamps : List Stamp) (client : Nat) (after upTo : ℚ) :
    stampsIn stamps client after upTo ≤ stampsIn (stamp :: stamps) client after upTo :=
  (List.sublist_cons_self stamp stamps).countP_le

theorem stage_setStage_self (s : Limiter) (call : Nat) (stage : LimitStage) :
    (s.setStage call stage).stage call = stage := Function.update_self _ _ _

theorem stage_setStage_of_ne (s : Limiter) {call other : Nat} (stage : LimitStage)
    (h : other ≠ call) : (s.setStage call stage).stage other = s.stage other :=
  Function.update_of_ne h _ _

theorem inFlight_setStage_le {call : Nat} {stage : LimitStage}
    (h : stage.inFlight = true → (s.stage call).inFlight = true) (client : Nat) :
    (s.setStage call stage).inFlight clientOf client ≤ s.inFlight clientOf client := by
  refine List.countP_mono_left fun other _ hother => ?_
  obtain ⟨hclient, hflight⟩ := of_decide_eq_true hother
  refine decide_eq_true ⟨hclient, ?_⟩
  by_cases hsame : other = call
  · rw [hsame, stage_setStage_self] at hflight
    rw [hsame]
    exact h hflight
  · rw [stage_setStage_of_ne s stage hsame] at hflight
    exact hflight

/-- The requests on their way, with the one whose stage is set apart. -/
theorem inFlight_setStage (hnodup : s.calls.Nodup) {call : Nat} (hcall : call ∈ s.calls)
    (stage : LimitStage) (client : Nat) :
    (s.setStage call stage).inFlight clientOf client =
      (s.calls.erase call).countP (fun other => clientOf other = client ∧
        (s.stage other).inFlight = true) +
      if clientOf call = client ∧ stage.inFlight = true then 1 else 0 := by
  have hrest : (s.calls.erase call).countP (fun other => clientOf other = client ∧
        ((s.setStage call stage).stage other).inFlight = true) =
      (s.calls.erase call).countP fun other => clientOf other = client ∧
        (s.stage other).inFlight = true := by
    refine List.countP_congr fun other hother => ?_
    have hne : other ≠ call := fun heq => hnodup.not_mem_erase (heq ▸ hother)
    rw [stage_setStage_of_ne s stage hne]
  show s.calls.countP _ = _
  rw [(List.perm_cons_erase hcall).countP_eq, List.countP_cons, hrest, stage_setStage_self]
  simp only [decide_eq_true_eq]

theorem setStage_stage (s : Limiter) (call : Nat) : s.setStage call (s.stage call) = s := by
  unfold setStage
  rw [Function.update_eq_self]

/-! ### The bound -/

/-- What a step under the condition keeps. `window` is the bound with the requests on their way, for the
windows that have not ended. -/
structure Limited (clientOf : Nat → Nat) (s : Limiter) : Prop extends Bounded s where
  nodup : s.calls.Nodup
  calls : ∀ call, s.stage call ≠ .idle ↔ call ∈ s.calls
  cutoffs : ∀ call cutoff, s.stage call = .arrived cutoff → cutoff ≤ s.now - windowSeconds
  created : ∀ call time, s.stage call = .inserted time → time ≤ s.now
  log : ∀ stamp ∈ s.log, stamp.time ≤ s.now
  window : ∀ client after, s.now - windowSeconds ≤ after →
    stampsAfter s.passes client after + s.inFlight clientOf client ≤ requestLimit

private theorem limited_initial (clientOf : Nat → Nat) : initial.Limited clientOf where
  passes _ _ := Nat.zero_le _
  rejections := List.forall_mem_nil _
  nodup := List.nodup_nil
  calls _ := iff_of_false (fun h => h rfl) List.not_mem_nil
  cutoffs _ _ h := by cases h
  created _ _ h := by cases h
  log := List.forall_mem_nil _
  window _ _ _ := Nat.zero_le _

/-- A stage after the first, with what it says about times. -/
theorem Limited.setStage (hs : s.Limited clientOf) {call : Nat} {stage : LimitStage}
    (hcall : call ∈ s.calls) (hidle : stage ≠ .idle)
    (hcutoff : ∀ cutoff, stage = .arrived cutoff → cutoff ≤ s.now - windowSeconds)
    (hcreated : ∀ time, stage = .inserted time → time ≤ s.now)
    (hwindow : ∀ client after, s.now - windowSeconds ≤ after →
      stampsAfter s.passes client after + (s.setStage call stage).inFlight clientOf client ≤
        requestLimit) : (s.setStage call stage).Limited clientOf where
  passes := hs.passes
  rejections := hs.rejections
  nodup := hs.nodup
  calls other := by
    by_cases hsame : other = call
    · rw [hsame, stage_setStage_self]
      exact iff_of_true hidle hcall
    · rw [stage_setStage_of_ne s stage hsame]
      exact hs.calls other
  cutoffs other cutoff hother := by
    by_cases hsame : other = call
    · rw [hsame, stage_setStage_self] at hother
      exact hcutoff cutoff hother
    · rw [stage_setStage_of_ne s stage hsame] at hother
      exact hs.cutoffs other cutoff hother
  created other time hother := by
    by_cases hsame : other = call
    · rw [hsame, stage_setStage_self] at hother
      exact hcreated time hother
    · rw [stage_setStage_of_ne s stage hsame] at hother
      exact hs.created other time hother
  log := hs.log
  window := hwindow

theorem Limited.mem_calls (hs : s.Limited clientOf) {call : Nat} {stage : LimitStage}
    (hstage : s.stage call = stage) (hidle : stage ≠ .idle) : call ∈ s.calls :=
  (hs.calls call).mp (hstage ▸ hidle)

theorem Limited.setStage_le (hs : s.Limited clientOf) {call : Nat} {stage : LimitStage}
    (hcall : call ∈ s.calls) (hidle : stage ≠ .idle)
    (hcutoff : ∀ cutoff, stage ≠ .arrived cutoff)
    (hcreated : ∀ time, stage = .inserted time → time ≤ s.now)
    (hflight : stage.inFlight = true → (s.stage call).inFlight = true) :
    (s.setStage call stage).Limited clientOf :=
  hs.setStage hcall hidle (fun cutoff h => absurd h (hcutoff cutoff)) hcreated
    fun client after hafter => (Nat.add_le_add_left (inFlight_setStage_le hflight client) _).trans
      (hs.window client after hafter)

theorem Limited.tick (hs : s.Limited clientOf) (seconds : ℚ) :
    (s.step clientOf (.tick seconds)).Limited clientOf := by
  have hlater : s.now ≤ s.now + max seconds 0 := le_add_of_nonneg_right (le_max_right _ _)
  exact {
    passes := hs.passes
    rejections := hs.rejections
    nodup := hs.nodup
    calls := hs.calls
    cutoffs := fun call cutoff h =>
      (hs.cutoffs call cutoff h).trans (sub_le_sub_right hlater windowSeconds)
    created := fun call time h => (hs.created call time h).trans hlater
    log := fun stamp hstamp => (hs.log stamp hstamp).trans hlater
    window := fun client after hafter =>
      hs.window client after ((sub_le_sub_right hlater windowSeconds).trans hafter) }

theorem Limited.arrive (hs : s.Limited clientOf) {call : Nat} (hidle : s.stage call = .idle) :
    Limited clientOf
      { s.setStage call (.arrived (s.now - windowSeconds)) with calls := call :: s.calls } where
  passes := hs.passes
  rejections := hs.rejections
  nodup := List.nodup_cons.mpr ⟨fun h => (hs.calls call).mpr h hidle, hs.nodup⟩
  calls other := by
    by_cases hsame : other = call
    · rw [hsame]
      refine iff_of_true (fun h => ?_) List.mem_cons_self
      cases (stage_setStage_self s call _).symm.trans h
    · rw [List.mem_cons, or_iff_right hsame, ← hs.calls other]
      exact not_congr (by rw [← stage_setStage_of_ne s _ hsame])
  cutoffs other cutoff hother := by
    by_cases hsame : other = call
    · subst hsame
      cases (stage_setStage_self s other _).symm.trans hother
      exact le_refl _
    · exact hs.cutoffs other cutoff ((stage_setStage_of_ne s _ hsame).symm.trans hother)
  created other time hother := by
    by_cases hsame : other = call
    · subst hsame
      cases (stage_setStage_self s other _).symm.trans hother
    · exact hs.created other time ((stage_setStage_of_ne s _ hsame).symm.trans hother)
  log := hs.log
  window client after hafter := by
    have hflight : inFlight clientOf
        { s.setStage call (.arrived (s.now - windowSeconds)) with calls := call :: s.calls } client ≤
        s.inFlight clientOf client := by
      refine le_of_eq_of_le ?_
        (@inFlight_setStage_le _ s call (.arrived (s.now - windowSeconds)) (fun h => by cases h)
          client)
      refine List.countP_cons_of_neg ?_
      intro h
      have hstage := (of_decide_eq_true h).2
      rw [stage_setStage_self] at hstage
      cases hstage
    exact (Nat.add_le_add_left hflight _).trans (hs.window client after hafter)

theorem Limited.reject (hs : s.Limited clientOf) {client : Nat}
    (h : requestLimit ≤ stampsAfter s.log client (s.now - windowSeconds)) :
    Limited clientOf { s with rejections := ⟨client, s.now⟩ :: s.rejections } :=
  { hs with
    rejections := by
      intro stamp hstamp
      rcases List.mem_cons.mp hstamp with rfl | hold
      · exact h.trans (stampsAfter_le_stampsIn hs.log client _)
      · exact hs.rejections stamp hold }

theorem Limited.admit (hs : s.Limited clientOf) {call : Nat} {cutoff : ℚ}
    (hstage : s.stage call = .arrived cutoff)
    (h : stampsAfter s.passes (clientOf call) cutoff + s.inFlight clientOf (clientOf call) <
      requestLimit) : (s.setStage call .admitted).Limited clientOf := by
  have hcall := hs.mem_calls hstage fun h => by cases h
  refine hs.setStage hcall (fun h => by cases h) (fun _ h => by cases h) (fun _ h => by cases h) ?_
  intro client after hafter
  have hbefore := @inFlight_setStage clientOf s hs.nodup call hcall (.arrived cutoff) client
  rw [← hstage, setStage_stage, hstage] at hbefore
  rw [inFlight_setStage hs.nodup hcall]
  by_cases hclient : clientOf call = client
  · subst hclient
    have hmono := @stampsAfter_mono s.passes (clientOf call) _ _
      ((hs.cutoffs call cutoff hstage).trans hafter)
    simp only [LimitStage.inFlight, and_true, and_false, if_true, if_false, Bool.false_eq_true,
      Nat.add_zero] at hbefore ⊢
    omega
  · simp only [hclient, false_and, if_false] at hbefore ⊢
    rw [← hbefore]
    exact hs.window client after hafter

theorem Limited.commit (hs : s.Limited clientOf) {client : Nat} {createdAt : ℚ}
    (h : createdAt ≤ s.now) : Limited clientOf { s with log := ⟨client, createdAt⟩ :: s.log } :=
  { hs with
    rejections := fun stamp hstamp =>
      (hs.rejections stamp hstamp).trans (stampsIn_cons_le _ _ _ _ _)
    log := by
      intro stamp hstamp
      rcases List.mem_cons.mp hstamp with rfl | hold
      · exact h
      · exact hs.log stamp hold }

/-- A request that is passed on was on its way. -/
theorem Limited.pass (hs : s.Limited clientOf) {call : Nat} (hstage : s.stage call = .committed) :
    Limited clientOf
      { s.setStage call .passed with passes := ⟨clientOf call, s.now⟩ :: s.passes } := by
  have hcall := hs.mem_calls hstage fun h => by cases h
  have hset : (s.setStage call .passed).Limited clientOf :=
    hs.setStage_le hcall (fun h => by cases h) (fun _ h => by cases h) (fun _ h => by cases h)
      fun h => by cases h
  have hwindow : ∀ client after, s.now - windowSeconds ≤ after →
      stampsAfter (⟨clientOf call, s.now⟩ :: s.passes) client after +
        (s.setStage call .passed).inFlight clientOf client ≤ requestLimit := by
    intro client after hafter
    have hbound := hs.window client after hafter
    have hbefore := @inFlight_setStage clientOf s hs.nodup call hcall .committed client
    rw [← hstage, setStage_stage, hstage] at hbefore
    rw [hbefore] at hbound
    rw [inFlight_setStage hs.nodup hcall]
    simp only [stampsAfter, List.countP_cons, LimitStage.inFlight, and_true, and_false, if_false,
      Bool.false_eq_true, Nat.add_zero, decide_eq_true_eq] at hbound ⊢
    by_cases hclient : clientOf call = client
    · simp only [hclient, true_and, if_true] at hbound ⊢
      split <;> omega
    · simp only [hclient, false_and, if_false] at hbound ⊢
      omega
  exact { hset with
    window := hwindow
    passes := by
      intro client after
      by_cases hin : after < s.now ∧ s.now ≤ after + windowSeconds
      · have hopen : s.now - windowSeconds ≤ after := by linarith only [hin.2]
        exact (stampsIn_le_stampsAfter _ client after _).trans
          ((Nat.le_add_right _ _).trans (hwindow client after hopen))
      · have hsame : stampsIn (⟨clientOf call, s.now⟩ :: s.passes) client after
            (after + windowSeconds) = stampsIn s.passes client after (after + windowSeconds) :=
          List.countP_cons_of_neg fun h => hin (of_decide_eq_true h).2
        exact hsame.trans_le (hs.passes client after) }

theorem Limited.step (hs : s.Limited clientOf) {event : LimitEvent}
    (h : s.CountsAll clientOf event) : (s.step clientOf event).Limited clientOf := by
  cases event with
  | tick seconds => exact hs.tick seconds
  | arrive call =>
      simp only [Limiter.step]
      split
      · exact hs.arrive ‹_›
      · exact hs
  | count call =>
      simp only [Limiter.step]
      split
      · rename_i cutoff hstage
        obtain ⟨hfits, hreject⟩ := h cutoff hstage
        split
        · rename_i hfull
          have hcall := hs.mem_calls hstage fun h => by cases h
          exact (hs.reject (hreject hfull)).setStage_le hcall (fun h => by cases h)
            (fun _ h => by cases h) (fun _ h => by cases h) fun h => by cases h
        · rename_i hfree
          exact hs.admit hstage (hfits (Nat.lt_of_not_le hfree))
      · exact hs
  | insert call =>
      simp only [Limiter.step]
      split
      · rename_i hstage
        refine hs.setStage_le (hs.mem_calls hstage fun h => by cases h) (fun h => by cases h)
          (fun _ h => by cases h) (fun time h => ?_) fun _ => hstage ▸ rfl
        cases h
        exact le_refl _
      · exact hs
  | commit call =>
      simp only [Limiter.step]
      split
      · rename_i createdAt hstage
        have hcall := hs.mem_calls hstage fun h => by cases h
        exact (hs.commit (hs.created call createdAt hstage)).setStage_le hcall (fun h => by cases h)
          (fun _ h => by cases h) (fun _ h => by cases h) fun _ => by
            show (s.stage call).inFlight = true
            rw [hstage]
            rfl
      · exact hs
  | pass call =>
      simp only [Limiter.step]
      split
      · exact hs.pass ‹_›
      · exact hs
  | fail call =>
      simp only [Limiter.step]
      split
      · exact hs
      · exact hs
      · exact hs
      · rename_i hidle _ _
        exact hs.setStage_le ((hs.calls call).mp hidle) (fun h => by cases h)
          (fun _ h => by cases h) (fun _ h => by cases h) fun h => by cases h

/-- While every count sees all that it has to see, the limit is a bound. -/
theorem bounded_of_countsAll (clientOf : Nat → Nat) (events : List LimitEvent)
    (h : Along (step clientOf) (fun s event => s.CountsAll clientOf event) initial events) :
    ∀ s ∈ visited (step clientOf) initial events, s.Bounded := fun s hs =>
  (@visited_of_along _ _ (step clientOf) _ (Limited clientOf) (fun hs hevent => hs.step hevent) _ _
    (limited_initial clientOf) h s hs).toBounded

/-- A count sees all that it has to see if every request passed on since the cutoff or on its way has a
row after the cutoff, and none of the client's rows has left the window since. -/
theorem countsAll_of_logged {s : Limiter} {call : Nat}
    (h : ∀ cutoff, s.stage call = .arrived cutoff →
      stampsAfter s.passes (clientOf call) cutoff + s.inFlight clientOf (clientOf call) ≤
        stampsAfter s.log (clientOf call) cutoff ∧
      ∀ stamp ∈ s.log, stamp.client = clientOf call → cutoff < stamp.time →
        s.now - windowSeconds < stamp.time) : s.CountsAll clientOf (.count call) := by
  intro cutoff hstage
  obtain ⟨hlogged, hstays⟩ := h cutoff hstage
  refine ⟨fun hbelow => hlogged.trans_lt hbelow, fun hlimit => hlimit.trans ?_⟩
  refine List.countP_mono_left fun stamp hmem hstamp => ?_
  obtain ⟨hclient, hafter⟩ := of_decide_eq_true hstamp
  exact decide_eq_true ⟨hclient, hstays stamp hmem hclient hafter⟩

/-- The calls of one client, two a second: each arrives before the row of the one before it is
committed, and the last one finds a hundred rows. -/
def overlapping (calls : Nat) : List LimitEvent :=
  .arrive 0 :: (List.range calls).flatMap (fun call =>
    [.count call, .insert call, .arrive (call + 1), .tick (1 / 2), .commit call]) ++
    .count calls :: (List.range calls).map .pass

theorem bounded_overlapping :
    let s := (overlapping 100).foldl (step fun _ => 7) initial
    s.Bounded ∧ s.passes.length = 100 ∧ s.rejections.length = 1 := by
  refine ⟨bounded_of_countsAll (fun _ => 7) (overlapping 100) ?_ _ (foldl_mem_visited _ _ _), ?_⟩
  · decide +kernel
  · decide +kernel

/-- As many calls of one client as are given count before any of them inserts. -/
def burst (calls : Nat) : List LimitEvent :=
  ((List.range calls).flatMap fun call => [.arrive call, .count call]) ++
    (List.range calls).flatMap fun call => [.insert call, .commit call, .pass call]

theorem burst_exceeds :
    ¬ ∀ (clientOf : Nat → Nat) (events : List LimitEvent),
      ∀ s ∈ visited (step clientOf) initial events, s.Bounded := by
  intro h
  have hbound := (h (fun _ => 7) (burst 101) _ (foldl_mem_visited _ _ _)).passes 7 (-1)
  have hpassed : stampsIn ((burst 101).foldl (step fun _ => 7) initial).passes 7 (-1)
      (-1 + windowSeconds) = 101 := by decide +kernel
  rw [hpassed] at hbound
  exact absurd hbound (by decide)

end Limiter

end SphereFx.Api
