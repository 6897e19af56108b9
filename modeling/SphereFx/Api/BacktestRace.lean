import Mathlib.Logic.Function.Basic
import SphereFx.Base.Run
import SphereFx.Api.BacktestRun
import SphereFx.Live.Queue

/-!
# A backtest and the requests to cancel it

The commits of `execute_backtest` on one row, interleaved with any number of sockets of
`backtest_logs_websocket`. The task writes the status from its own copy of the row and never reads it
again; a socket reads the status, and writes `CANCELLED` in a later step. Any number of lines may be
streamed, none as well: `run_backtest` as shipped hands out no line (`Api.BacktestRun`), and what
holds over every interleaving here holds over those.
-/

namespace SphereFx.Api

open Backtester (BacktestLogLine)
open Live (WriteOutcome)

/-- Where the background task stands. -/
inductive TaskStage where
  | due
  /-- The row is loaded and `RUNNING` is about to be committed. -/
  | loaded
  /-- The task reads the stream, with its own copy of the result and the messages so far. -/
  | streaming (result : Option (List (String × Json))) (logs : List String)
  /-- An exception has reached the handler. -/
  | raised (cause : String)
  | ended

/-- Where a socket stands. -/
inductive SocketStage where
  | closed
  | waiting
  /-- A cancel request has read the status. -/
  | seen (status : RunStatus)
  /-- The client is about to be told that the backtest is cancelled. -/
  | telling

/-- The row with its two kinds of writers. `moves` has the status before and after every commit,
newest first, and `told` the sockets whose client was told of the cancellation. -/
structure RaceState where
  row : BacktestRun
  task : TaskStage
  sockets : Nat → SocketStage
  moves : List (RunStatus × RunStatus)
  told : List Nat

inductive RaceAction where
  | load
  | start (outcome : WriteOutcome)
  | raise (cause : String)
  | line (line : BacktestLogLine) (outcome : WriteOutcome)
  | finish (signalIds : List Int) (time : Nat) (outcome : WriteOutcome)
  | fail (outcome : WriteOutcome)
  | crash
  | connect (socket : Nat)
  | leave (socket : Nat)
  | readStatus (socket : Nat)
  | commitCancel (socket : Nat) (outcome : WriteOutcome)
  | tell (socket : Nat)

namespace RaceState

/-- The run as `start_backtest` has committed it. -/
def initial (id userId : Nat) (config : Json) : RaceState where
  row := ⟨id, userId, .pending, config, none, none⟩
  task := .due
  sockets := fun _ => .closed
  moves := []
  told := []

/-- A commit of the changed columns. -/
def write (s : RaceState) (outcome : WriteOutcome) (change : BacktestRun → BacktestRun) : RaceState :=
  if outcome.applied then
    { s with row := change s.row, moves := (s.row.status, (change s.row).status) :: s.moves }
  else s

def withTask (s : RaceState) (task : TaskStage) : RaceState := { s with task := task }

def withSocket (s : RaceState) (socket : Nat) (stage : SocketStage) : RaceState :=
  { s with sockets := Function.update s.sockets socket stage }

/-- The stage after a commit, which ends the task if it raised. -/
def orEnded (outcome : WriteOutcome) (task : TaskStage) : TaskStage :=
  if outcome = .done then task else .ended

/-- A line of the stream. -/
def onLine (s : RaceState) (result : Option (List (String × Json))) (logs : List String)
    (line : BacktestLogLine) (outcome : WriteOutcome) : RaceState :=
  let (result, changed) := nextResult result line.progress
  let streaming := TaskStage.streaming (some result) (logs ++ [line.message])
  if changed = false then s.withTask streaming
  else (s.write outcome (.progressed line.progress)).withTask (orEnded outcome streaming)

def step (s : RaceState) : RaceAction → RaceState
  | .load =>
      match s.task with
      | .due => s.withTask .loaded
      | _ => s
  | .start outcome =>
      match s.task with
      | .loaded => (s.write outcome .started).withTask (orEnded outcome (.streaming none []))
      | _ => s
  | .raise cause =>
      match s.task with
      | .streaming _ _ => s.withTask (.raised cause)
      | _ => s
  | .line line outcome =>
      match s.task with
      | .streaming result logs => s.onLine result logs line outcome
      | _ => s
  | .finish signalIds time outcome =>
      match s.task with
      | .streaming _ logs => (s.write outcome (.finished signalIds logs time)).withTask .ended
      | _ => s
  | .fail outcome =>
      match s.task with
      | .raised cause => (s.write outcome (.broken cause)).withTask .ended
      | _ => s
  | .crash => s.withTask .ended
  | .connect socket =>
      match s.sockets socket with
      | .closed => if s.row.status = .done then s else s.withSocket socket .waiting
      | _ => s
  | .leave socket => s.withSocket socket .closed
  | .readStatus socket =>
      match s.sockets socket with
      | .waiting => s.withSocket socket (.seen s.row.status)
      | _ => s
  | .commitCancel socket outcome =>
      match s.sockets socket with
      | .seen .running =>
          (s.write outcome .cancelled).withSocket socket
            (if outcome = .done then .telling else .closed)
      | .seen _ => s.withSocket socket .telling
      | _ => s
  | .tell socket =>
      match s.sockets socket with
      | .telling => { s.withSocket socket .closed with told := socket :: s.told }
      | _ => s

/-! ### What one step commits -/

/-- The commits that set a final status, and the status they set. -/
def settles (s : RaceState) : RaceAction → Option RunStatus
  | .finish _ _ outcome =>
      match s.task with
      | .streaming _ _ => if outcome.applied then some .done else none
      | _ => none
  | .fail outcome =>
      match s.task with
      | .raised _ => if outcome.applied then some .failed else none
      | _ => none
  | .commitCancel socket outcome =>
      match s.sockets socket with
      | .seen .running => if outcome.applied then some .cancelled else none
      | _ => none
  | _ => none

/-- A cancel request finds the run `RUNNING` only after its task has ended without a final status. -/
def CancelsOrphans (s : RaceState) : RaceAction → Prop
  | .readStatus _ => s.row.status = .running → s.task = .ended
  | _ => True

/-- `PENDING -> RUNNING -> one of DONE, FAILED, CANCELLED`. -/
inductive Edge : RunStatus → RunStatus → Prop where
  | start : Edge .pending .running
  | done : Edge .running .done
  | failed : Edge .running .failed
  | cancelled : Edge .running .cancelled

/-- The status only moves along the edges, and a cancelled run stays cancelled. -/
structure Orderly (s : RaceState) : Prop where
  along : ∀ move ∈ s.moves, move.1 = move.2 ∨ Edge move.1 move.2
  final : ∀ move ∈ s.moves, move.1 = .cancelled → move.2 = .cancelled

/-! ### What one step can do -/

theorem write_moves (s : RaceState) (outcome : WriteOutcome) (change : BacktestRun → BacktestRun) :
    (outcome.applied = false ∧ s.write outcome change = s) ∨
      (outcome.applied = true ∧ (s.write outcome change).row = change s.row ∧
        (s.write outcome change).moves = (s.row.status, (change s.row).status) :: s.moves) := by
  unfold write
  cases outcome.applied with
  | true => exact Or.inr ⟨rfl, rfl, rfl⟩
  | false => exact Or.inl ⟨rfl, rfl⟩

theorem task_write (s : RaceState) (outcome : WriteOutcome) (change : BacktestRun → BacktestRun) :
    (s.write outcome change).task = s.task := by
  unfold write
  split <;> rfl

theorem sockets_write (s : RaceState) (outcome : WriteOutcome)
    (change : BacktestRun → BacktestRun) : (s.write outcome change).sockets = s.sockets := by
  unfold write
  split <;> rfl

/-- The status of the row while the task has not ended. -/
def expected : TaskStage → Option RunStatus
  | .due => some .pending
  | .loaded => some .pending
  | .streaming _ _ => some .running
  | .raised _ => some .running
  | .ended => none

theorem expected_orEnded {outcome : WriteOutcome} {task : TaskStage} {status : RunStatus}
    (h : expected (orEnded outcome task) = some status) :
    outcome = .done ∧ expected task = some status := by
  unfold orEnded at h
  split at h
  · rename_i hdone
    exact ⟨hdone, h⟩
  · cases h

/-- The effect of a step, whoever takes it. -/
inductive Effect (s : RaceState) (action : RaceAction) : RaceState → Prop where
  | stay : Effect s action s
  | load (hdue : s.task = .due) : Effect s action (s.withTask .loaded)
  | start (outcome : WriteOutcome) (hloaded : s.task = .loaded) :
      Effect s action ((s.write outcome .started).withTask (orEnded outcome (.streaming none [])))
  /-- The task streams on, or raises, without a commit. -/
  | goOn {task : TaskStage} (hbefore : expected s.task = some .running)
      (hafter : expected task = some .running) : Effect s action (s.withTask task)
  /-- The task streams on after a commit that keeps the status. -/
  | progress (outcome : WriteOutcome) {change : BacktestRun → BacktestRun} {task : TaskStage}
      (hbefore : expected s.task = some .running) (hafter : expected task = some .running)
      (hkept : (change s.row).status = s.row.status) :
      Effect s action ((s.write outcome change).withTask (orEnded outcome task))
  /-- The task ends with a final status. -/
  | settle (outcome : WriteOutcome) {change : BacktestRun → BacktestRun}
      (hbefore : expected s.task = some .running)
      (hsettles : outcome.applied = true → s.settles action = some (change s.row).status) :
      Effect s action ((s.write outcome change).withTask .ended)
  | crash : Effect s action (s.withTask .ended)
  | socket (socket : Nat) {stage : SocketStage} (hstage : stage ≠ .seen .running) :
      Effect s action (s.withSocket socket stage)
  | readStatus {socket : Nat} (haction : action = .readStatus socket) :
      Effect s action (s.withSocket socket (.seen s.row.status))
  | cancel (outcome : WriteOutcome) {socket : Nat} {stage : SocketStage}
      (hseen : s.sockets socket = .seen .running) (hstage : stage ≠ .seen .running)
      (hsettles : outcome.applied = true → s.settles action = some .cancelled) :
      Effect s action ((s.write outcome .cancelled).withSocket socket stage)
  | tell (socket : Nat) :
      Effect s action { s.withSocket socket .closed with told := socket :: s.told }

section Effects

-- The equations of `step` are made here, once for all lemmas of the section.
attribute [local simp] step

variable {s : RaceState} {action : RaceAction}

private theorem effect_line (line : BacktestLogLine) (outcome : WriteOutcome) :
    s.Effect action (s.step (.line line outcome)) := by
  simp only [step]
  split
  · rename_i hstreaming
    simp only [onLine]
    split
    · exact .goOn (congrArg expected hstreaming) rfl
    · exact .progress outcome (congrArg expected hstreaming) rfl rfl
  · exact .stay

private theorem effect_finish (signalIds : List Int) (time : Nat) (outcome : WriteOutcome) :
    s.Effect (.finish signalIds time outcome) (s.step (.finish signalIds time outcome)) := by
  simp only [step]
  split
  · rename_i hstreaming
    refine .settle outcome (congrArg expected hstreaming) fun happlied => ?_
    simp only [settles, hstreaming, if_pos happlied]
    rfl
  · exact .stay

private theorem effect_fail (outcome : WriteOutcome) :
    s.Effect (.fail outcome) (s.step (.fail outcome)) := by
  simp only [step]
  split
  · rename_i hraised
    refine .settle outcome (congrArg expected hraised) fun happlied => ?_
    simp only [settles, hraised, if_pos happlied]
    rfl
  · exact .stay

private theorem effect_connect (socket : Nat) : s.Effect action (s.step (.connect socket)) := by
  simp only [step]
  split
  · split
    · exact .stay
    · exact .socket socket (by simp)
  · exact .stay

private theorem effect_commitCancel (socket : Nat) (outcome : WriteOutcome) :
    s.Effect (.commitCancel socket outcome) (s.step (.commitCancel socket outcome)) := by
  simp only [step]
  split
  · rename_i hseen
    refine .cancel outcome hseen ?_ fun happlied => ?_
    · split <;> simp
    · simp only [settles, hseen, if_pos happlied]
  · exact .socket socket (by simp)
  · exact .stay

theorem effect_of_step (s : RaceState) (action : RaceAction) : s.Effect action (s.step action) := by
  cases action with
  | line line outcome => exact effect_line line outcome
  | finish signalIds time outcome => exact effect_finish signalIds time outcome
  | fail outcome => exact effect_fail outcome
  | connect socket => exact effect_connect socket
  | commitCancel socket outcome => exact effect_commitCancel socket outcome
  | crash => exact .crash
  | leave socket => exact .socket socket (by simp)
  | load =>
      simp only [step]
      split
      · rename_i hdue
        exact .load hdue
      · exact .stay
  | start outcome =>
      simp only [step]
      split
      · rename_i hloaded
        exact .start outcome hloaded
      · exact .stay
  | raise cause =>
      simp only [step]
      split
      · rename_i hstreaming
        exact .goOn (congrArg expected hstreaming) rfl
      · exact .stay
  | readStatus socket =>
      simp only [step]
      split
      · exact .readStatus rfl
      · exact .stay
  | tell socket =>
      simp only [step]
      split
      · exact .tell socket
      · exact .stay

end Effects

/-- Until the task has started, the run is pending and no socket has seen it running. -/
def Early (s : RaceState) : Prop :=
  (s.task = .due ∨ s.task = .loaded) →
    s.row.status = .pending ∧ ∀ socket, s.sockets socket ≠ .seen .running

theorem early_withSocket {s : RaceState} (h : s.Early) (socket : Nat) {stage : SocketStage}
    (hstage : s.row.status = .pending → stage ≠ .seen .running) : (s.withSocket socket stage).Early := by
  intro htask
  obtain ⟨hpending, hunseen⟩ := h htask
  refine ⟨hpending, fun other => ?_⟩
  show Function.update s.sockets socket stage other ≠ _
  rw [Function.update_apply]
  split
  · exact hstage hpending
  · exact hunseen other

theorem early_withTask {s : RaceState} {task : TaskStage} (htask : expected task ≠ some .pending) :
    (s.withTask task).Early := by
  rintro (hdue | hloaded)
  · exact absurd (congrArg expected hdue) htask
  · exact absurd (congrArg expected hloaded) htask

private theorem early_of_running {s : RaceState} {task : TaskStage} (hafter : expected task = some .running) :
    (s.withTask task).Early :=
  early_withTask (by rw [hafter]; simp)

theorem early_orEnded {s : RaceState} {task : TaskStage} {outcome : WriteOutcome}
    (hafter : expected task = some .running) : (s.withTask (orEnded outcome task)).Early := by
  refine early_withTask fun hpending => ?_
  obtain ⟨-, hbefore⟩ := expected_orEnded hpending
  rw [hafter] at hbefore
  cases hbefore

theorem Early.effect {s s' : RaceState} {action : RaceAction} (h : s.Early)
    (heffect : s.Effect action s') : s'.Early := by
  cases heffect with
  | stay => exact h
  | load hdue => exact fun _ => h (Or.inl hdue)
  | start outcome hloaded => exact early_orEnded rfl
  | goOn _ hafter => exact early_of_running hafter
  | progress outcome _ hafter _ => exact early_orEnded hafter
  | settle outcome _ _ => exact early_withTask (by simp [expected])
  | crash => exact early_withTask (by simp [expected])
  | socket socket hstage => exact early_withSocket h socket fun _ => hstage
  | readStatus haction =>
      refine early_withSocket h _ fun hpending hseen => ?_
      rw [hpending] at hseen
      cases hseen
  | @cancel outcome socket stage hseen _ _ =>
      intro htask
      have hbefore : s.task = .due ∨ s.task = .loaded := by
        rw [← s.task_write outcome .cancelled]
        exact htask
      exact absurd hseen ((h hbefore).2 socket)
  | tell socket => exact early_withSocket h socket fun _ => by simp

/-- The invariant of a run that cancels orphans only: until the task has ended the row has its status
and no socket has seen it running, and a socket that has seen it running can only find it cancelled
since. -/
structure Calm (s : RaceState) : Prop where
  live : ∀ status, expected s.task = some status →
    s.row.status = status ∧ ∀ socket, s.sockets socket ≠ .seen .running
  seen : ∀ socket, s.sockets socket = .seen .running →
    s.row.status = .running ∨ s.row.status = .cancelled

theorem calm_withSocket {s : RaceState} (h : s.Calm) (socket : Nat) {stage : SocketStage}
    (hstage : stage ≠ .seen .running) : (s.withSocket socket stage).Calm := by
  have hsockets : ∀ other, (s.withSocket socket stage).sockets other = .seen .running →
      s.sockets other = .seen .running := by
    intro other hother
    change Function.update s.sockets socket stage other = _ at hother
    rw [Function.update_apply] at hother
    split at hother
    · exact absurd hother hstage
    · exact hother
  exact ⟨fun status hstatus => ⟨(h.live status hstatus).1,
    fun other hother => (h.live status hstatus).2 other (hsockets other hother)⟩,
    fun other hother => h.seen other (hsockets other hother)⟩

theorem calm_withTask {s s' : RaceState} {task : TaskStage} {status : RunStatus} (h : s.Calm)
    (hstatus : expected s.task = some status) (hsockets : s'.sockets = s.sockets)
    (hrow : ∀ next, expected task = some next → s'.row.status = next) :
    (s'.withTask task).Calm := by
  have hunseen : ∀ socket, (s'.withTask task).sockets socket ≠ .seen .running := by
    intro socket
    show s'.sockets socket ≠ _
    rw [hsockets]
    exact (h.live status hstatus).2 socket
  exact ⟨fun next hnext => ⟨hrow next hnext, hunseen⟩, fun socket hseen => absurd hseen (hunseen socket)⟩

/-- The commit of a cancel request: no task is left that the socket could have interrupted. -/
theorem Calm.cancel {s : RaceState} (h : s.Calm) {socket : Nat}
    (hseen : s.sockets socket = .seen .running) (outcome : WriteOutcome) :
    (s.write outcome .cancelled).Calm := by
  refine ⟨fun status hstatus => ?_, fun other _ => ?_⟩
  · rw [s.task_write] at hstatus
    exact absurd hseen ((h.live status hstatus).2 socket)
  · rcases s.write_moves outcome .cancelled with ⟨-, hsame⟩ | ⟨-, hrow, -⟩
    · rw [hsame]
      exact h.seen socket hseen
    · rw [hrow]
      exact Or.inr rfl

/-- A request reads the status: if it is `RUNNING` the task has ended, so only what the sockets may
find is left to show. -/
theorem Calm.readStatus {s : RaceState} (h : s.Calm) {socket : Nat}
    (hmeets : s.CancelsOrphans (.readStatus socket)) :
    (s.withSocket socket (.seen s.row.status)).Calm := by
  by_cases hrunning : s.row.status = .running
  · refine ⟨fun status hstatus => ?_, fun _ _ => Or.inl hrunning⟩
    change expected s.task = some status at hstatus
    rw [hmeets hrunning] at hstatus
    cases hstatus
  · exact calm_withSocket h socket fun hseen => hrunning (SocketStage.seen.inj hseen)

theorem Calm.effect {s s' : RaceState} {action : RaceAction} (h : s.Calm)
    (hmeets : s.CancelsOrphans action) (heffect : s.Effect action s') : s'.Calm := by
  cases heffect with
  | stay => exact h
  | load hdue =>
      refine calm_withTask h (congrArg expected hdue) rfl fun next hnext => ?_
      exact (h.live next (hdue ▸ hnext)).1
  | start outcome hloaded =>
      refine calm_withTask h (congrArg expected hloaded) (s.sockets_write _ _) fun next hnext => ?_
      obtain ⟨rfl, hrunning⟩ := expected_orEnded hnext
      exact Option.some.inj hrunning
  | goOn hbefore hafter =>
      refine calm_withTask h hbefore rfl fun next hnext => ?_
      exact (h.live next (hbefore.trans (hafter.symm.trans hnext))).1
  | progress outcome hbefore hafter hkept =>
      refine calm_withTask h hbefore (s.sockets_write _ _) fun next hnext => ?_
      obtain ⟨rfl, hnext⟩ := expected_orEnded hnext
      exact hkept.trans (h.live next (hbefore.trans (hafter.symm.trans hnext))).1
  | settle outcome hbefore _ =>
      exact calm_withTask h hbefore (s.sockets_write _ _) fun next hnext => by cases hnext
  | crash =>
      refine ⟨fun next hnext => ?_, h.seen⟩
      cases hnext
  | socket socket hstage => exact calm_withSocket h socket hstage
  | readStatus haction =>
      subst haction
      exact h.readStatus hmeets
  | cancel outcome hseen hstage _ => exact calm_withSocket (h.cancel hseen outcome) _ hstage
  | tell socket =>
      have hclosed : (s.withSocket socket .closed).Calm := calm_withSocket h socket (by simp)
      exact ⟨hclosed.live, hclosed.seen⟩

end RaceState

end SphereFx.Api
