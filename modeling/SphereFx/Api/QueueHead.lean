import SphereFx.Api.LiveUpdates

/-!
# The head of the notification queue

A poll takes the oldest row of the queue, and the row comes back when the session closes. So the head
of the queue never moves on, whoever polls.
-/

namespace SphereFx.Api.Notifications

/-- No message of the live queue was sent before this one. -/
structure IsOldest (s : Notifications) (row : QueuedMessage) : Prop where
  mem : row ∈ s.sent
  queueName : row.queueName = liveJobsQueue
  oldest : ∀ other ∈ s.sent, other.queueName = liveJobsQueue → row.createdAt ≤ other.createdAt

/-- The database clock does not run back between two sends. -/
def Clocked (s : Notifications) : NotifyEvent → Prop
  | .send _ _ _ createdAt => ∀ row ∈ s.sent, row.createdAt ≤ createdAt
  | _ => True

/-- The queue holds what was sent, and the handlers have only seen its head. -/
structure AtHead (s : Notifications) : Prop where
  rows : ∀ row, row ∈ s.queue.rows ↔ row ∈ s.sent
  receiving : ∀ account row, s.receiving = some (account, row) → s.IsOldest row
  forwarded : ∀ entry ∈ s.forwarded, ∃ row, s.IsOldest row ∧ row.id = entry.2 ∧
    row.isFor entry.1 = true

private theorem atHead_empty : empty.AtHead where
  rows _ := Iff.rfl
  receiving _ _ h := nomatch h
  forwarded _ h := nomatch h

private theorem isOldest_of_received {s : Notifications} (h : ∀ row, row ∈ s.queue.rows ↔ row ∈ s.sent)
    {pick : Nat} {row : QueuedMessage}
    (hrow : receiveNotification s.queue liveJobsQueue pick = some row) : s.IsOldest row := by
  have hmem : row ∈ oldestMessages s.queue liveJobsQueue := by
    simp only [receiveNotification, Option.orElse_eq_orElse, Option.orElse_eq_or,
      Option.or_eq_some_iff] at hrow
    rcases hrow with hpicked | ⟨-, hhead⟩
    · exact List.mem_of_find?_eq_some hpicked
    · exact List.mem_of_mem_head? hhead
  obtain ⟨hnamed, hall⟩ := List.mem_filter.mp hmem
  obtain ⟨hqueue, hname⟩ := List.mem_filter.mp hnamed
  refine ⟨(h row).mp hqueue, of_decide_eq_true hname, fun other hother hotherName => ?_⟩
  exact of_decide_eq_true (List.all_eq_true.mp hall other
    (List.mem_filter.mpr ⟨(h other).mpr hother, decide_eq_true hotherName⟩))

theorem IsOldest.send {s t : Notifications} {row new : QueuedMessage} (h : s.IsOldest row)
    (hsent : t.sent = new :: s.sent) (hlater : row.createdAt ≤ new.createdAt) : t.IsOldest row where
  mem := hsent ▸ List.mem_cons_of_mem new h.mem
  queueName := h.queueName
  oldest other hother hname := by
    rw [hsent] at hother
    rcases List.mem_cons.mp hother with rfl | hold
    · exact hlater
    · exact h.oldest other hold hname

theorem IsOldest.of_sent {s t : Notifications} {row : QueuedMessage} (h : s.IsOldest row)
    (hsent : t.sent = s.sent) : t.IsOldest row :=
  ⟨hsent ▸ h.mem, h.queueName, fun other hother => h.oldest other (hsent ▸ hother)⟩

theorem AtHead.step {s : Notifications} {event : NotifyEvent} (h : s.AtHead) (hclock : s.Clocked event) :
    (s.step event).AtHead := by
  -- Only a send changes the queue and the history of what was sent.
  have hstep : ((s.step event).queue = s.queue ∧ (s.step event).sent = s.sent) ∨
      ∃ new, (s.step event).sent = new :: s.sent ∧ (s.step event).queue.rows = new :: s.queue.rows ∧
        ∀ row ∈ s.sent, row.createdAt ≤ new.createdAt := by
    cases event with
    | send id queueName message createdAt =>
        simp only [Notifications.step]
        split
        · exact .inl ⟨rfl, rfl⟩
        · next queue hinsert =>
          exact .inr ⟨⟨id, queueName, message, createdAt⟩, rfl, (Table.insert?_eq_some hinsert).2, hclock⟩
    | connect account => exact .inl ⟨rfl, rfl⟩
    | disconnect account =>
        simp only [Notifications.step]
        split <;> exact .inl ⟨rfl, rfl⟩
    | poll account pick =>
        simp only [Notifications.step]
        split <;> exact .inl ⟨rfl, rfl⟩
    | handle succeeds =>
        simp only [Notifications.step]
        split
        · exact .inl ⟨rfl, rfl⟩
        · exact .inl (s.forward_queue _ _ succeeds)
  have hkeep : ∀ row, s.IsOldest row → (s.step event).IsOldest row := by
    intro row hrow
    rcases hstep with ⟨-, hsent⟩ | ⟨new, hsent, -, hlater⟩
    · exact hrow.of_sent hsent
    · exact hrow.send hsent (hlater row hrow.mem)
  refine ⟨fun row => ?_, fun account row hreceiving => ?_, fun entry hentry => ?_⟩
  · rcases hstep with ⟨hqueue, hsent⟩ | ⟨new, hsent, hrows, -⟩
    · rw [hqueue, hsent]
      exact h.rows row
    · rw [hrows, hsent, List.mem_cons, List.mem_cons, h.rows row]
  · obtain ⟨-, hbefore | ⟨pick, rfl, hpolled⟩⟩ := receiving_step hreceiving
    · exact hkeep row (h.receiving account row hbefore)
    · exact hkeep row (isOldest_of_received h.rows hpolled)
  · rcases s.forwarded_step event with hsame | ⟨account, row, -, hreceiving, hfor, hforwarded⟩
    · obtain ⟨row, hrow, hid, hfor⟩ := h.forwarded entry (hsame ▸ hentry)
      exact ⟨row, hkeep row hrow, hid, hfor⟩
    · rw [hforwarded] at hentry
      rcases List.mem_cons.mp hentry with rfl | hold
      · exact ⟨row, hkeep row (h.receiving account row hreceiving), rfl, hfor⟩
      · obtain ⟨row, hrow, hid, hfor⟩ := h.forwarded entry hold
        exact ⟨row, hkeep row hrow, hid, hfor⟩

/-- In every run only messages as old as the first one are ever forwarded. A message sent later than
another stays behind it: it is forwarded to nobody, however often its account polls. -/
theorem blocked_behind_oldest {events : List NotifyEvent} (h : Along step Clocked empty events) :
    ∀ s ∈ visited step empty events,
      (∀ entry ∈ s.forwarded, ∃ row, s.IsOldest row ∧ row.id = entry.2 ∧ row.isFor entry.1 = true) ∧
      ∀ first ∈ s.sent, first.queueName = liveJobsQueue → ∀ later ∈ s.sent,
        first.createdAt < later.createdAt → ∀ account, (account, later.id) ∉ s.forwarded := by
  intro s hs
  have hhead : s.AtHead := visited_of_along AtHead.step atHead_empty h s hs
  refine ⟨hhead.forwarded, fun first hfirst hname later hlater hlt account hentry => ?_⟩
  obtain ⟨row, hrow, hid, -⟩ := hhead.forwarded _ hentry
  have hsame : row = later := List.inj_on_of_nodup_map s.queue.unique ((hhead.rows row).mpr hrow.mem)
    ((hhead.rows later).mpr hlater) hid
  have hle := hrow.oldest first hfirst hname
  rw [hsame] at hle
  exact absurd hlt (Nat.not_lt.mpr hle)

/-- A message for account 3, then one for account 4, which polls twice. -/
def waitingBehind : List NotifyEvent :=
  [.send 1 liveJobsQueue [("account_id", .int 3)] 5, .send 2 liveJobsQueue [("account_id", .int 4)] 6,
    .connect 4, .poll 4 2, .handle true, .poll 4 2, .handle true]

theorem blocked_behind_oldest_of_two :
    (4, 2) ∉ (waitingBehind.foldl step empty).forwarded := by
  have hclock : Along step Clocked empty waitingBehind := by
    refine ⟨nofun, ?_, trivial, trivial, trivial, trivial, trivial, trivial⟩
    intro row hrow
    rw [List.mem_singleton.mp hrow]
    decide
  exact (blocked_behind_oldest hclock _ (foldl_mem_visited _ _ _)).2
    ⟨1, liveJobsQueue, [("account_id", .int 3)], 5⟩ (List.mem_cons_of_mem _ List.mem_cons_self) rfl
    ⟨2, liveJobsQueue, [("account_id", .int 4)], 6⟩ List.mem_cons_self (by decide) 4

end SphereFx.Api.Notifications
