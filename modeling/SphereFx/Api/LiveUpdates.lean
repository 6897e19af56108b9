import Mathlib.Logic.Function.Basic
import SphereFx.Base.Json
import SphereFx.Base.Run
import SphereFx.Base.Table

/-!
# Live notifications

The queue table of `broker_service.py` with the sockets of `live_updates_websocket`, one for each
account. Every handler polls the same queue: its `DELETE` takes the oldest row, whoever that is for,
and the session it ran in is closed without a commit. Until then the row is locked, and the others
wait for it.
-/

namespace SphereFx.Api

/-- A row of `service_broker_queue`, with the message as it is read back. -/
structure QueuedMessage where
  id : Nat
  queueName : String
  message : List (String × Json)
  createdAt : Nat

namespace QueuedMessage

/-- `msg and msg.get("account_id") == account_id`. -/
def isFor (row : QueuedMessage) (account : Nat) : Bool :=
  row.message ≠ [] ∧ (Json.index row.message "account_id").pyNumber? = some (account : ℚ)

end QueuedMessage

abbrev BrokerQueue := Table QueuedMessage QueuedMessage.id

/-- The queue that the handlers poll. -/
def liveJobsQueue : String := "live_jobs_queue"

/-- The rows of a queue with the least `created_at`, any of which `TOP (1)` may take. -/
def oldestMessages (queue : BrokerQueue) (queueName : String) : List QueuedMessage :=
  let named := queue.rows.filter fun row => row.queueName = queueName
  named.filter fun row => named.all fun other => row.createdAt ≤ other.createdAt

/-- The row that the `DELETE` of `receive_notification` takes, `pick` being the one that SQL Server
prefers. -/
def receiveNotification (queue : BrokerQueue) (queueName : String) (pick : Nat) :
    Option QueuedMessage :=
  ((oldestMessages queue queueName).find? fun row => row.id = pick) <|>
    (oldestMessages queue queueName).head?

/-- The queue and the handlers. `receiving` is the account whose session has deleted a row and is
still open; `sent` and `forwarded` are the history, newest first. -/
structure Notifications where
  queue : BrokerQueue
  connected : Nat → Bool
  receiving : Option (Nat × QueuedMessage)
  sent : List QueuedMessage
  forwarded : List (Nat × Nat)

inductive NotifyEvent where
  /-- A committed `send_notification`. -/
  | send (id : Nat) (queueName : String) (message : List (String × Json)) (createdAt : Nat)
  | connect (account : Nat)
  | disconnect (account : Nat)
  /-- A handler opens a session and receives. -/
  | poll (account pick : Nat)
  /-- The handler that has received goes on, and `send_json` succeeds or raises. -/
  | handle (succeeds : Bool)

namespace Notifications

def empty : Notifications := ⟨Table.empty, fun _ => false, none, [], []⟩

/-- The session closes without a commit, so the deleted row is back. -/
def closeSession (s : Notifications) : Notifications := { s with receiving := none }

def setConnected (s : Notifications) (account : Nat) (connected : Bool) : Notifications :=
  { s with connected := Function.update s.connected account connected }

def isReceiving (s : Notifications) (account : Nat) : Bool :=
  s.receiving.any fun received => received.1 = account

/-- The rest of the loop body after `receive_notification` has returned a message. -/
def forward (s : Notifications) (account : Nat) (row : QueuedMessage) (succeeds : Bool) :
    Notifications :=
  if row.isFor account then
    if succeeds then { s.closeSession with forwarded := (account, row.id) :: s.forwarded }
    else s.closeSession.setConnected account false
  else s.closeSession

def step (s : Notifications) : NotifyEvent → Notifications
  | .send id queueName message createdAt =>
      let row : QueuedMessage := ⟨id, queueName, message, createdAt⟩
      match s.queue.insert? row with
      | none => s
      | some queue => { s with queue := queue, sent := row :: s.sent }
  | .connect account => s.setConnected account true
  | .disconnect account =>
      if s.isReceiving account then s.closeSession.setConnected account false
      else s.setConnected account false
  | .poll account pick =>
      if s.connected account = true ∧ s.receiving.isNone = true then
        { s with
          receiving := (receiveNotification s.queue liveJobsQueue pick).map fun row => (account, row) }
      else s
  | .handle succeeds =>
      match s.receiving with
      | none => s
      | some (account, row) => s.forward account row succeeds

/-- A message is forwarded to its account at most once, and it stays in the queue until then. -/
structure Delivered (s : Notifications) : Prop where
  once : s.forwarded.Nodup
  kept : ∀ row ∈ s.sent, ∀ account, row.isFor account = true →
    row ∈ s.queue.rows ∨ (account, row.id) ∈ s.forwarded

/-- A handler that received a message for its own account has not forwarded it before. -/
def Fresh (s : Notifications) : NotifyEvent → Prop
  | .handle true => ∀ account row, s.receiving = some (account, row) → row.isFor account = true →
      (account, row.id) ∉ s.forwarded
  | _ => True

/-- No handler polls while the oldest message is one it has forwarded already. -/
def FreshHead (s : Notifications) : NotifyEvent → Prop
  | .poll account pick => ∀ row, receiveNotification s.queue liveJobsQueue pick = some row →
      row.isFor account = true → (account, row.id) ∉ s.forwarded
  | _ => True

/-! ### What one step does -/

/-- Nothing is ever removed from the queue. -/
def NothingRemoved (s : Notifications) : Prop := ∀ row ∈ s.sent, row ∈ s.queue.rows

theorem forward_queue (s : Notifications) (account : Nat) (row : QueuedMessage) (succeeds : Bool) :
    (s.forward account row succeeds).queue = s.queue ∧
      (s.forward account row succeeds).sent = s.sent := by
  unfold forward
  split
  · split <;> exact ⟨rfl, rfl⟩
  · exact ⟨rfl, rfl⟩

private theorem nothingRemoved_step {s : Notifications} (h : s.NothingRemoved) (event : NotifyEvent) :
    (s.step event).NothingRemoved := by
  cases event with
  | send id queueName message createdAt =>
      simp only [step]
      split
      · exact h
      · rename_i queue hinsert
        obtain ⟨-, hrows⟩ := Table.insert?_eq_some hinsert
        intro row hrow
        show row ∈ queue.rows
        rw [hrows]
        rcases List.mem_cons.mp hrow with rfl | hold
        · exact List.mem_cons_self
        · exact List.mem_cons_of_mem _ (h row hold)
  | connect account => exact h
  | disconnect account =>
      simp only [step]
      split <;> exact h
  | poll account pick =>
      simp only [step]
      split <;> exact h
  | handle succeeds =>
      simp only [step]
      split
      · exact h
      · rename_i account row _
        obtain ⟨hqueue, hsent⟩ := s.forward_queue account row succeeds
        unfold NothingRemoved
        rw [hqueue, hsent]
        exact h

/-- The history grows by a message that its own handler has received and sent. -/
theorem forwarded_step (s : Notifications) (event : NotifyEvent) :
    (s.step event).forwarded = s.forwarded ∨
      ∃ account row, event = .handle true ∧ s.receiving = some (account, row) ∧
        row.isFor account = true ∧
        (s.step event).forwarded = (account, row.id) :: s.forwarded := by
  cases event with
  | send id queueName message createdAt =>
      simp only [step]
      split <;> exact Or.inl rfl
  | connect account => exact Or.inl rfl
  | disconnect account =>
      simp only [step]
      split <;> exact Or.inl rfl
  | poll account pick =>
      simp only [step]
      split <;> exact Or.inl rfl
  | handle succeeds =>
      simp only [step]
      split
      · exact Or.inl rfl
      · rename_i account row hreceiving
        unfold forward
        split
        · rename_i hfor
          cases succeeds with
          | true => exact Or.inr ⟨account, row, rfl, hreceiving, hfor, rfl⟩
          | false => exact Or.inl rfl
        · exact Or.inl rfl

private theorem forwarded_handle {s : Notifications} {account : Nat} {row : QueuedMessage}
    (hreceiving : s.receiving = some (account, row)) (hfor : row.isFor account = true) :
    (s.step (.handle true)).forwarded = (account, row.id) :: s.forwarded := by
  simp only [step, hreceiving, forward, if_pos hfor, if_true]

/-! ### Runs -/

theorem once_step {s : Notifications} {event : NotifyEvent} (h : s.forwarded.Nodup)
    (hfresh : s.Fresh event) : (s.step event).forwarded.Nodup := by
  rcases s.forwarded_step event with hsame | ⟨account, row, rfl, hreceiving, hfor, hforwarded⟩
  · rw [hsame]
    exact h
  · rw [hforwarded]
    exact List.nodup_cons.mpr ⟨hfresh account row hreceiving hfor, h⟩

private theorem fresh_of_once {s : Notifications} {event : NotifyEvent}
    (h : (s.step event).forwarded.Nodup) : s.Fresh event := by
  unfold Fresh
  split
  · intro account row hreceiving hfor
    rw [forwarded_handle hreceiving hfor] at h
    exact (List.nodup_cons.mp h).1
  · exact trivial

/-- The invariant of a run with fresh heads: what was received has not been forwarded. -/
def ReceivedFresh (s : Notifications) : Prop :=
  s.forwarded.Nodup ∧ ∀ account row, s.receiving = some (account, row) →
    row.isFor account = true → (account, row.id) ∉ s.forwarded

private theorem fresh_of_receivedFresh {s : Notifications} (h : s.ReceivedFresh) (event : NotifyEvent) :
    s.Fresh event := by
  unfold Fresh
  split
  · exact h.2
  · exact trivial

/-- What a handler has received was received before the step, or is what it polls now. -/
theorem receiving_step {s : Notifications} {event : NotifyEvent} {account : Nat}
    {row : QueuedMessage} (h : (s.step event).receiving = some (account, row)) :
    (s.step event).forwarded = s.forwarded ∧ (s.receiving = some (account, row) ∨
      ∃ pick, event = .poll account pick ∧
        receiveNotification s.queue liveJobsQueue pick = some row) := by
  cases event with
  | send id queueName message createdAt =>
      simp only [step] at h ⊢
      split at h
      · exact ⟨rfl, Or.inl h⟩
      · exact ⟨rfl, Or.inl h⟩
  | connect other => exact ⟨rfl, Or.inl h⟩
  | disconnect other =>
      simp only [step] at h ⊢
      split at h
      · cases h
      · rename_i hother
        rw [if_neg hother]
        exact ⟨rfl, Or.inl h⟩
  | poll other pick =>
      simp only [step] at h ⊢
      split at h
      · rename_i hidle
        rw [if_pos hidle]
        obtain ⟨polled, hpolled, heq⟩ := Option.map_eq_some_iff.mp h
        obtain ⟨rfl, rfl⟩ := Prod.mk.inj heq
        exact ⟨rfl, Or.inr ⟨pick, rfl, hpolled⟩⟩
      · rename_i hbusy
        rw [if_neg hbusy]
        exact ⟨rfl, Or.inl h⟩
  | handle succeeds =>
      simp only [step] at h
      split at h
      · rename_i hnone
        rw [hnone] at h
        cases h
      · unfold forward at h
        split at h
        · split at h <;> cases h
        · cases h

private theorem receivedFresh_step {s : Notifications} {event : NotifyEvent} (h : s.ReceivedFresh)
    (hfresh : s.FreshHead event) : (s.step event).ReceivedFresh := by
  refine ⟨once_step h.1 (fresh_of_receivedFresh h event), fun account row hreceiving hfor => ?_⟩
  obtain ⟨hforwarded, hbefore | ⟨pick, rfl, hpolled⟩⟩ := receiving_step hreceiving
  · rw [hforwarded]
    exact h.2 account row hbefore hfor
  · rw [hforwarded]
    exact hfresh row hpolled hfor

/-- In every run nothing is removed from the queue, and every message is forwarded at most once
exactly when no handler goes on to send a message again. It is enough that no handler polls while the
oldest message is one it has forwarded. -/
theorem delivered_iff (events : List NotifyEvent) :
    ((∀ s ∈ visited step empty events, s.Delivered) ↔ Along step Fresh empty events) ∧
      (Along step FreshHead empty events → ∀ s ∈ visited step empty events, s.Delivered) ∧
      ∀ s ∈ visited step empty events, s.NothingRemoved := by
  have hstart : empty.NothingRemoved := nofun
  have hkept : ∀ s ∈ visited step empty events, s.NothingRemoved :=
    @visited_invariant _ _ step NothingRemoved (fun h => nothingRemoved_step h _) _ _ hstart
  have hdelivered : ∀ s ∈ visited step empty events, s.forwarded.Nodup → s.Delivered :=
    fun s hs honce => ⟨honce, fun row hrow _ _ => Or.inl (hkept s hs row hrow)⟩
  refine ⟨⟨fun h => ?_, fun h s hs => ?_⟩, fun h s hs => ?_, hkept⟩
  · exact @along_of_visited _ _ step Fresh Delivered (fun _ => True) (fun _ => trivial)
      (fun _ _ hnext => fresh_of_once hnext.once) _ _ trivial h
  · have honce := @visited_of_along _ _ step Fresh (fun s => s.forwarded.Nodup) once_step _ _
      List.nodup_nil h
    exact hdelivered s hs (honce s hs)
  · have hempty : empty.ReceivedFresh := ⟨List.nodup_nil, fun _ _ hreceiving => nomatch hreceiving⟩
    have hfresh := @visited_of_along _ _ step FreshHead ReceivedFresh receivedFresh_step _ _ hempty h
    exact hdelivered s hs (hfresh s hs).1

end Notifications

/-- One message for the account, polled twice by its only handler. -/
def polledTwice : List NotifyEvent :=
  [.send 1 liveJobsQueue [("account_id", .int 3), ("status", .str "SUCCESS")] 5, .connect 3,
    .poll 3 1, .handle true, .poll 3 1, .handle true]

theorem forwarded_twice :
    (polledTwice.foldl Notifications.step .empty).forwarded = [(3, 1), (3, 1)] := by
  decide

end SphereFx.Api
