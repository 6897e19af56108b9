import SphereFx.Live.Desk

/-!
# The table agrees with the broker

Whatever becomes of the requests, no job's order is placed twice and the broker does no order that
is not of a taken job. A row is `SUCCESS` only if its own order has been done, and it then has that
order's ticket. The converse needs runs in which every response reaches the worker and is stored.
-/

namespace SphereFx.Live

/-! ### What the terminal keeps -/

private theorem call_kept {b : Mt5Bridge} {c : TerminalCall} (h : c ∈ b.calls) (event : BridgeEvent) :
    c ∈ (b.step event).calls := by
  cases event with
  | execute request answers =>
      obtain ⟨-, opening, hopening, -⟩ := connect_calls answers b
      obtain ⟨made, hafter, -⟩ := sendOrder_calls request answers b
      have hcalls : (b.step (.execute request answers)).calls = b.calls ++ opening ++ made := by
        show (sendOrder request answers b).2.calls = _
        rw [hafter, hopening]
      rw [hcalls]
      exact List.mem_append_left _ (List.mem_append_left _ h)
  | health up =>
      show c ∈ (isConnected up b).2.calls
      unfold isConnected
      split
      · exact List.mem_append_left _ h
      · exact h
  | shutdown =>
      show c ∈ (shutdown b).calls
      unfold SphereFx.Live.shutdown
      split
      · exact List.mem_append_left _ h
      · exact h

/-- The broker has done the order that a payload asks for, under the ticket of the reply. -/
def Ordered (text : BridgeText) (calls : List TerminalCall) (payload : Json)
    (reply : OrderResponse) : Prop :=
  ∃ trade sent info, TerminalCall.orderSend trade (some sent) ∈ calls ∧
    sent.retcode = tradeRetcodeDone ∧ reply.ticket = sent.order ∧
    sentRequest text.parseFloat true (some info) payload = some trade

theorem request?_eq_some {text : BridgeText} {payload : Json} {request : OrderRequest} :
    text.request? payload = some request ↔ ∃ fields, payload.unmarshalMap = .ok fields ∧
      validateOrder text.parseFloat (orderBody fields) = some request := by
  simp only [BridgeText.request?, Option.bind_eq_some_iff, toOption_eq_some]

/-- A reply without an error comes after an order that the broker has done. -/
theorem sendOrder_of_reply {request : OrderRequest} {answers : TerminalAnswers} {b : Mt5Bridge}
    {order : OrderResponse} (h : executeReply (sendOrder request answers b).1 = .ok order) :
    ∃ trade sent, tradeRequest true answers.symbolInfo request = .ok trade ∧
      answers.orderSend = some sent ∧ sent.retcode = tradeRetcodeDone ∧
      TerminalCall.orderSend trade (some sent) ∈ (sendOrder request answers b).2.calls ∧
      order = ⟨sent.order, sent.price, slippageBps request.entryPrice sent.price, "FILLED"⟩ := by
  unfold sendOrder at h ⊢
  generalize connect answers b = opened at h ⊢
  obtain ⟨ok, after⟩ := opened
  cases ok with
  | false => cases h
  | true =>
      simp only at h ⊢
      cases hsymbol : knownSymbol answers.symbolInfo request.symbol with
      | error message =>
          rw [hsymbol] at h
          cases h
      | ok info =>
          rw [hsymbol] at h
          simp only at h ⊢
          cases htrade : tradeRequest true answers.symbolInfo request with
          | error exception =>
              rw [htrade] at h
              cases h
          | ok trade =>
              rw [htrade] at h
              simp only at h ⊢
              cases hsent : answers.orderSend with
              | none =>
                  rw [hsent] at h
                  cases h
              | some sent =>
                  rw [hsent] at h
                  by_cases hdone : sent.retcode = tradeRetcodeDone
                  · simp only [brokerResult, hdone, ne_eq, not_true_eq_false, if_false,
                      executeReply, if_true, Except.ok.injEq] at h
                    exact ⟨trade, sent, rfl, rfl, hdone, by simp, h.symm⟩
                  · simp only [brokerResult, hdone, ne_eq, not_false_eq_true, if_true, executeReply,
                      failedOrder, Bool.false_eq_true, if_false] at h
                    cases h

private theorem ordered_of_reply {text : BridgeText} {payload : Json} {request : OrderRequest}
    {answers : TerminalAnswers} {b : Mt5Bridge} {order : OrderResponse}
    (hrequest : text.request? payload = some request)
    (hreply : executeReply (sendOrder request answers b).1 = .ok order) :
    Ordered text (b.step (.execute request answers)).calls payload order := by
  obtain ⟨fields, hfields, hvalid⟩ := request?_eq_some.mp hrequest
  obtain ⟨trade, sent, htrade, -, hdone, hcall, rfl⟩ := sendOrder_of_reply hreply
  obtain ⟨-, info, hinfo, -⟩ := tradeRequest_eq_ok.mp htrade
  rw [hinfo] at htrade
  exact ⟨trade, sent, info, hcall, hdone, rfl,
    sentRequest_eq_some.mpr ⟨fields, request, hfields, hvalid, htrade⟩⟩

theorem Ordered.later {text : BridgeText} {b : Mt5Bridge} {payload : Json} {reply : OrderResponse}
    (h : Ordered text b.calls payload reply) (event : BridgeEvent) :
    Ordered text (b.step event).calls payload reply := by
  obtain ⟨trade, sent, info, hcall, hdone⟩ := h
  exact ⟨trade, sent, info, call_kept hcall event, hdone⟩

/-! ### What the worker makes of the reply -/

/-- The ticket in a stored result. -/
def storedTicket (result : Json) : Option ℚ :=
  result.object?.bind fun fields => (Json.index fields "ticket").number?

theorem storedTicket_replyBody (order : OrderResponse) (price slippage : ℚ) :
    storedTicket (replyBody order price slippage).remarshal = some (order.ticket : ℚ) := by
  show (Json.index (Json.remarshalFields _) "ticket").number? = _
  unfold Json.index
  rw [Json.lookup_remarshalFields]
  exact Json.number?_ofFloat64 _

private theorem storedTicket_of_response {text : BridgeText} {job : LiveJob} {result : Json}
    {reply : Except String OrderResponse}
    (h : executeOrder job (text.response reply) = .ok result) :
    ∃ order, reply = .ok order ∧ storedTicket result = some (order.ticket : ℚ) := by
  obtain ⟨body, v, hhttp, hparse⟩ := executeOrder_eq_ok h
  cases reply with
  | error detail =>
      injection hhttp with hstatus
      cases hstatus
  | ok order =>
      refine ⟨order, rfl, ?_⟩
      simp only [BridgeText.response] at hhttp
      split at hhttp
      · next price slippage _ _ =>
        obtain ⟨-, -, hv⟩ := HttpOutcome.response.inj hhttp
        obtain rfl := Except.ok.inj hv
        have hbody : parseResponse (replyBody order price slippage) =
            .ok (replyBody order price slippage).remarshal := rfl
        rw [← Except.ok.inj (hbody.symm.trans hparse)]
        exact storedTicket_replyBody order price slippage
      · injection hhttp with hstatus
        cases hstatus

/-- What an exchange does to the desk, and when the worker can take it for an order. -/
private theorem exchange_cases (text : BridgeText) (delivery : Delivery) (answers : TerminalAnswers)
    (job : LiveJob) (d : Desk) :
    ((d.exchange text delivery answers job).2 = d ∧
        ∀ result, executeOrder job (d.exchange text delivery answers job).1 ≠ .ok result) ∨
      ∃ request, text.request? job.payload = some request ∧
        ((d.exchange text delivery answers job).2 =
              { d with late := d.late ++ [(job.id, request)] } ∧
            (∀ result, executeOrder job (d.exchange text delivery answers job).1 ≠ .ok result) ∨
          (d.exchange text delivery answers job).2 = d.handle answers job.id request ∧
            ∀ result, executeOrder job (d.exchange text delivery answers job).1 = .ok result →
              ∃ order, executeReply (sendOrder request answers d.bridge).1 = .ok order ∧
                storedTicket result = some (order.ticket : ℚ)) := by
  unfold Desk.exchange
  cases delivery with
  | unsent cause => exact .inl ⟨rfl, executeOrder_ne_ok (by simp)⟩
  | unreached cause => exact .inl ⟨rfl, executeOrder_ne_ok (by simp)⟩
  | abandoned cause =>
      cases hrequest : text.request? job.payload with
      | none => exact .inl ⟨rfl, executeOrder_ne_ok (by simp)⟩
      | some request => exact .inr ⟨request, rfl, .inl ⟨rfl, executeOrder_ne_ok (by simp)⟩⟩
  | garbled cause =>
      cases hrequest : text.request? job.payload with
      | none => exact .inl ⟨rfl, executeOrder_ne_ok (by simp)⟩
      | some request =>
          exact .inr ⟨request, rfl, .inr ⟨rfl, fun result h =>
            absurd h (executeOrder_ne_ok (by simp) result)⟩⟩
  | answered =>
      cases hrequest : text.request? job.payload with
      | none => exact .inl ⟨rfl, executeOrder_ne_ok (by simp)⟩
      | some request =>
          exact .inr ⟨request, rfl, .inr ⟨rfl, fun result h => storedTicket_of_response h⟩⟩

/-! ### Placed once -/

/-- The jobs of the requests that the bridge has handled, and of those still on their way. -/
def Desk.requested (d : Desk) : List JobId := d.exchanges.map Prod.fst ++ d.late.map Prod.fst

/-- Every request comes from a row that has been taken, and no row has two. -/
structure Placed (text : BridgeText) (d : Desk) : Prop where
  orderly : Orderly d.bridge
  replies : d.exchanges.map Prod.snd = d.bridge.replies
  once : d.requested.Nodup
  late : ∀ id request, (id, request) ∈ d.late → ∃ row, d.jobs.find? id = some row ∧
    row.status.taken = true ∧ text.request? row.payload = some request
  placed : ∀ id reply, (id, reply) ∈ d.exchanges → ∃ row, d.jobs.find? id = some row ∧
    row.status.taken = true ∧
      ∀ order, reply = .ok order → Ordered text d.bridge.calls row.payload order

/-- Rows that have been taken stay so, with their payload. -/
def TakenKept (jobs jobs' : JobTable) : Prop :=
  ∀ id row, jobs.find? id = some row → row.status.taken = true →
    ∃ row', jobs'.find? id = some row' ∧ row'.status.taken = true ∧ row'.payload = row.payload

theorem Placed.keep {text : BridgeText} {d : Desk} (h : Placed text d) {jobs : JobTable}
    (hkept : TakenKept d.jobs jobs) : Placed text { d with jobs := jobs } where
  orderly := h.orderly
  replies := h.replies
  once := h.once
  late id request hmem := by
    obtain ⟨row, hrow, htaken, hrequest⟩ := h.late id request hmem
    obtain ⟨row', hrow', htaken', hpayload⟩ := hkept id row hrow htaken
    exact ⟨row', hrow', htaken', hpayload ▸ hrequest⟩
  placed id reply hmem := by
    obtain ⟨row, hrow, htaken, hordered⟩ := h.placed id reply hmem
    obtain ⟨row', hrow', htaken', hpayload⟩ := hkept id row hrow htaken
    exact ⟨row', hrow', htaken', hpayload ▸ hordered⟩

/-- The bridge may handle a request of a taken row if no other of that row is known. -/
theorem Placed.handle {text : BridgeText} {d : Desk} (h : Placed text d) {row : LiveJob}
    {request : OrderRequest} {rest : List (JobId × OrderRequest)} (answers : TerminalAnswers)
    (hrow : d.jobs.find? row.id = some row) (htaken : row.status.taken = true)
    (hrequest : text.request? row.payload = some request) (hrest : ∀ entry ∈ rest, entry ∈ d.late)
    (honce : (row.id :: (d.exchanges.map Prod.fst ++ rest.map Prod.fst)).Nodup) :
    Placed text { d.handle answers row.id request with late := rest } where
  orderly := h.orderly.execute request answers
  replies := by
    obtain ⟨hreplies, -⟩ := connect_calls answers d.bridge
    obtain ⟨made, hafter, -⟩ := sendOrder_calls request answers d.bridge
    show (d.exchanges ++ [_]).map Prod.snd = (sendOrder request answers d.bridge).2.replies ++ [_]
    rw [List.map_append, h.replies, hafter, hreplies]
    rfl
  once := by
    show ((d.exchanges ++ [_]).map Prod.fst ++ rest.map Prod.fst).Nodup
    rw [List.map_append, List.append_assoc]
    exact List.nodup_middle.mpr honce
  late id request hmem := h.late id request (hrest _ hmem)
  placed id reply hmem := by
    rcases List.mem_append.mp hmem with hold | hnew
    · obtain ⟨row', hrow', htaken', hordered⟩ := h.placed id reply hold
      exact ⟨row', hrow', htaken', fun order hok => (hordered order hok).later _⟩
    · obtain ⟨rfl, rfl⟩ := Prod.mk.inj (List.mem_singleton.mp hnew)
      exact ⟨row, hrow, htaken, fun order hok => ordered_of_reply hrequest hok⟩

theorem Placed.delay {text : BridgeText} {d : Desk} (h : Placed text d) {row : LiveJob}
    {request : OrderRequest} (hrow : d.jobs.find? row.id = some row)
    (htaken : row.status.taken = true) (hrequest : text.request? row.payload = some request)
    (hfresh : row.id ∉ d.requested) :
    Placed text { d with late := d.late ++ [(row.id, request)] } where
  orderly := h.orderly
  replies := h.replies
  once := by
    show (d.exchanges.map Prod.fst ++ (d.late ++ [_]).map Prod.fst).Nodup
    rw [List.map_append, ← List.append_assoc]
    exact List.nodup_append_comm.mp (List.nodup_cons.mpr ⟨hfresh, h.once⟩)
  late id request' hmem := by
    rcases List.mem_append.mp hmem with hold | hnew
    · exact h.late id request' hold
    · obtain ⟨rfl, rfl⟩ := Prod.mk.inj (List.mem_singleton.mp hnew)
      exact ⟨row, hrow, htaken, hrequest⟩
  placed := h.placed

/-! ### What the writers of the table keep -/

theorem takenKept_of_mem {jobs jobs' : JobTable}
    (h : ∀ row ∈ jobs.rows, row.status.taken = true → row ∈ jobs'.rows) : TakenKept jobs jobs' := by
  intro id row hrow htaken
  obtain ⟨hmem, hid⟩ := Table.find?_eq_some.mp hrow
  exact ⟨row, Table.find?_eq_some.mpr ⟨h row hmem htaken, hid⟩, htaken, rfl⟩

theorem mem_enqueueJob {job row : LiveJob} {jobs : JobTable} (h : row ∈ jobs.rows) :
    row ∈ ((enqueueJob job jobs).getD jobs).rows := by
  cases hinsert : enqueueJob job jobs with
  | none => exact h
  | some jobs' =>
      obtain ⟨-, -, hrows⟩ := enqueueJob_eq_some.mp hinsert
      rw [Option.getD_some, hrows]
      exact List.mem_cons_of_mem _ h

private theorem of_mem_enqueueJob {job row : LiveJob} {jobs : JobTable}
    (h : row ∈ ((enqueueJob job jobs).getD jobs).rows) : row = job ∨ row ∈ jobs.rows := by
  cases hinsert : enqueueJob job jobs with
  | none =>
      rw [hinsert] at h
      exact .inr h
  | some jobs' =>
      obtain ⟨-, -, hrows⟩ := enqueueJob_eq_some.mp hinsert
      rw [hinsert, Option.getD_some, hrows] at h
      exact List.mem_cons.mp h

/-- A row that is not pending is left alone by a cancellation, and no other comes of one. -/
theorem mem_cancelJob {id : JobId} {now : Nat} {jobs : JobTable} {row : LiveJob}
    (hpending : row.status ≠ .pending) (hcancelled : row.status ≠ .cancelled) :
    row ∈ (cancelJob id now jobs).2.rows ↔ row ∈ jobs.rows := by
  unfold cancelJob guardedUpdate
  split
  · next hmatch =>
    obtain ⟨old, hold, hstatus⟩ := Option.any_eq_true _ _ |>.mp hmatch
    refine (@Table.mem_update _ _ jobs id (LiveJob.cancel now) (fun _ => rfl) row).trans
      ⟨?_, fun hmem => ?_⟩
    · rintro ⟨other, hother, rfl⟩
      split at hcancelled
      · exact absurd rfl hcancelled
      · next hid =>
        rwa [if_neg hid]
    · refine ⟨row, hmem, if_neg ?_⟩
      rintro rfl
      rw [Table.find?_eq_some.mpr ⟨hmem, rfl⟩] at hold
      obtain rfl := Option.some.inj hold
      exact hpending (of_decide_eq_true hstatus)
  · exact Iff.rfl

theorem mem_cancelJob_of_taken {id : JobId} {now : Nat} {jobs : JobTable} {row : LiveJob}
    (htaken : row.status.taken = true) (hmem : row ∈ jobs.rows) :
    row ∈ (cancelJob id now jobs).2.rows := by
  refine (mem_cancelJob ?_ ?_).mpr hmem
  · intro hstatus
    rw [hstatus] at htaken
    cases htaken
  · intro hstatus
    rw [hstatus] at htaken
    cases htaken

theorem Worked.pending {cfg : Config} {env : Env} {jobs jobs' : JobTable} {row row' : LiveJob}
    (h : Worked cfg env jobs jobs' row row') :
    jobs.find? row.id = some row ∧ row.status = .pending :=
  ⟨selected_find? h.selected, (selectNext_mem h.selected).2⟩

theorem Worked.mem_of_taken {cfg : Config} {env : Env} {jobs jobs' : JobTable}
    {row row' other : LiveJob} (h : Worked cfg env jobs jobs' row row') (hother : other ∈ jobs.rows)
    (htaken : other.status.taken = true) : other ∈ jobs'.rows := by
  have hfind : jobs.find? other.id = some other := Table.find?_eq_some.mpr ⟨hother, rfl⟩
  have hne : other.id ≠ row.id := by
    intro hid
    rw [hid, h.pending.1] at hfind
    rw [← Option.some.inj hfind, h.pending.2] at htaken
    cases htaken
  exact (Table.find?_eq_some.mp ((h.others _ hne).trans hfind)).1

theorem Worked.mem {cfg : Config} {env : Env} {jobs jobs' : JobTable} {row row' other : LiveJob}
    (h : Worked cfg env jobs jobs' row row') (hother : other ∈ jobs'.rows) :
    other = row' ∨ other ∈ jobs.rows := by
  have hfind : jobs'.find? other.id = some other := Table.find?_eq_some.mpr ⟨hother, rfl⟩
  by_cases hid : other.id = row.id
  · rw [hid, h.found] at hfind
    exact .inl (Option.some.inj hfind).symm
  · rw [h.others _ hid] at hfind
    exact .inr (Table.find?_eq_some.mp hfind).1

/-! ### The books -/

/-- The row has the ticket of its own order. -/
def Filled (d : Desk) (row : LiveJob) : Prop :=
  ∃ order stored, (row.id, .ok order) ∈ d.exchanges ∧ row.result = some stored ∧
    storedTicket stored = some (order.ticket : ℚ)

/-- The invariant of the desk. -/
structure Booked (text : BridgeText) (d : Desk) : Prop extends Placed text d where
  filled : ∀ row ∈ d.jobs.rows, row.status = .success → Filled d row

theorem Booked.keep {text : BridgeText} {d : Desk} (h : Booked text d) {jobs : JobTable}
    (hkept : TakenKept d.jobs jobs)
    (hsuccess : ∀ row ∈ jobs.rows, row.status = .success → row ∈ d.jobs.rows) :
    Booked text { d with jobs := jobs } where
  toPlaced := h.toPlaced.keep hkept
  filled row hmem hstatus := h.filled row (hsuccess row hmem hstatus) hstatus

theorem Booked.enqueue {text : BridgeText} {d : Desk} (h : Booked text d) (id : JobId)
    (signalId accountId userId : Nat) (lotSize : ℚ) (payload : Json) (now : Nat) :
    Booked text (d.step text (.enqueue id signalId accountId userId lotSize payload now)) := by
  refine h.keep (takenKept_of_mem fun row hmem _ => mem_enqueueJob hmem) fun row hmem hstatus => ?_
  rcases of_mem_enqueueJob hmem with rfl | hold
  · cases hstatus
  · exact hold

theorem Booked.cancel {text : BridgeText} {d : Desk} (h : Booked text d) (id : JobId) (now : Nat) :
    Booked text (d.step text (.cancel id now)) := by
  refine h.keep (takenKept_of_mem fun row hmem htaken => mem_cancelJob_of_taken htaken hmem)
    fun row hmem hstatus => ?_
  exact (mem_cancelJob (by simp [hstatus]) (by simp [hstatus])).mp hmem

theorem Booked.bridge {text : BridgeText} {d : Desk} (h : Booked text d) {event : BridgeEvent}
    (hreplies : (d.bridge.step event).replies = d.bridge.replies) :
    Booked text { d with bridge := d.bridge.step event } where
  orderly := h.orderly.step event
  replies := h.replies.trans hreplies.symm
  once := h.once
  late := h.late
  placed id reply hmem := by
    obtain ⟨row, hrow, htaken, hordered⟩ := h.placed id reply hmem
    exact ⟨row, hrow, htaken, fun order hok => (hordered order hok).later event⟩
  filled := h.filled

/-- Rows that are pending have made no request. -/
theorem Placed.fresh {text : BridgeText} {d : Desk} (h : Placed text d) {row : LiveJob}
    (hrow : d.jobs.find? row.id = some row) (hpending : row.status = .pending) :
    row.id ∉ d.requested := by
  have hother : ∀ other, d.jobs.find? row.id = some other → other.status.taken = true → False := by
    intro other hfind htaken
    rw [← Option.some.inj (hrow.symm.trans hfind), hpending] at htaken
    cases htaken
  intro hmem
  rcases List.mem_append.mp hmem with hdone | hlate
  · obtain ⟨⟨id, reply⟩, hentry, rfl⟩ := List.mem_map.mp hdone
    obtain ⟨other, hfind, htaken, -⟩ := h.placed _ reply hentry
    exact hother other hfind htaken
  · obtain ⟨⟨id, request⟩, hentry, rfl⟩ := List.mem_map.mp hlate
    obtain ⟨other, hfind, htaken, -⟩ := h.late _ request hentry
    exact hother other hfind htaken

theorem Booked.arrived {text : BridgeText} {d : Desk} (h : Booked text d) (place : Nat)
    (answers : TerminalAnswers) : Booked text (d.step text (.late place answers)) := by
  cases hentry : d.late[place]? with
  | none =>
      rw [Desk.step_late_none hentry]
      exact h
  | some entry =>
      obtain ⟨id, request⟩ := entry
      obtain ⟨hlt, hget⟩ := List.getElem?_eq_some_iff.mp hentry
      obtain ⟨row, hrow, htaken, hrequest⟩ :=
        h.toPlaced.late id request (List.mem_of_getElem? hentry)
      obtain rfl : row.id = id := (Table.find?_eq_some.mp hrow).2
      have hperm : d.requested.Perm
          (row.id :: (d.exchanges.map Prod.fst ++ (d.late.eraseIdx place).map Prod.fst)) := by
        have hlate : (d.late.map Prod.fst).Perm
            (row.id :: (d.late.eraseIdx place).map Prod.fst) := by
          have herase := (List.getElem_cons_eraseIdx_perm hlt).symm
          rw [hget] at herase
          exact herase.map Prod.fst
        exact (hlate.append_left _).trans List.perm_middle
      rw [Desk.step_late hentry]
      refine ⟨h.toPlaced.handle answers hrow htaken hrequest
        (fun entry hmem => List.mem_of_mem_eraseIdx hmem) (hperm.nodup_iff.mp h.once), ?_⟩
      intro other hmem hstatus
      obtain ⟨order, stored, hdone, hstored⟩ := h.filled other hmem hstatus
      exact ⟨order, stored, List.mem_append_left _ hdone, hstored⟩

theorem Booked.idle {text : BridgeText} {d : Desk} (h : Booked text d) {cfg : Config} {env : Env}
    (hsends : sends cfg env d.jobs = none) :
    Booked text { d with jobs := (processNextJob cfg env d.jobs).2 } := by
  rcases processNextJob_spec cfg env d.jobs with ⟨hsame, -⟩ | ⟨row, row', hworked, -⟩
  · rw [hsame]
    exact h
  · refine h.keep (takenKept_of_mem fun _ => hworked.mem_of_taken) fun other hmem hstatus => ?_
    rcases hworked.mem hmem with rfl | hold
    · obtain ⟨result, -, hsent, -⟩ := hworked.success hstatus
      rw [hsends] at hsent
      cases hsent
    · exact hold

theorem Booked.exchange {text : BridgeText} {d : Desk} (h : Booked text d) {cfg : Config}
    {env : Env} {job : LiveJob} (hsends : sends cfg env d.jobs = some job) (delivery : Delivery)
    (answers : TerminalAnswers) :
    Booked text { (d.exchange text delivery answers job).2 with
      jobs := (processNextJob cfg
        { env with http := (d.exchange text delivery answers job).1 } d.jobs).2 } := by
  have hcases := exchange_cases text delivery answers job d
  generalize d.exchange text delivery answers job = exchanged at hcases ⊢
  obtain ⟨http, after⟩ := exchanged
  simp only at hcases ⊢
  rcases processNextJob_spec cfg { env with http := http } d.jobs with
    ⟨-, hnone⟩ | ⟨row, row', hworked, honly⟩
  · exact absurd (hnone.symm.trans hsends) (by simp)
  obtain rfl : job = row.claimedCopy env.now := honly job hsends
  generalize (processNextJob cfg { env with http := http } d.jobs).2 = jobs at hworked ⊢
  have hplaced := h.toPlaced.keep (takenKept_of_mem fun _ => hworked.mem_of_taken)
  have hfresh : row.id ∉ d.requested := h.fresh hworked.pending.1 hworked.pending.2
  have hid : row'.id = row.id := (Table.find?_eq_some.mp hworked.found).2
  have hfound : jobs.find? row'.id = some row' := hid.symm ▸ hworked.found
  -- No success can come of a request that the worker has no answer to.
  have hunanswered : (∀ result, executeOrder (row.claimedCopy env.now) http ≠ .ok result) →
      ∀ other ∈ jobs.rows, other.status = .success → Filled d other := by
    intro hnever other hmem hstatus
    rcases hworked.mem hmem with rfl | hold
    · obtain ⟨result, -, -, hresult⟩ := hworked.success hstatus
      exact absurd hresult (hnever result)
    · exact h.filled other hold hstatus
  rcases hcases with ⟨rfl, hnever⟩ | ⟨request, hrequest, ⟨rfl, hnever⟩ | ⟨rfl, hanswer⟩⟩
  · exact ⟨hplaced, hunanswered hnever⟩
  · refine ⟨?_, hunanswered hnever⟩
    have hdelayed := hplaced.delay hfound hworked.taken (hworked.payload ▸ hrequest) (hid ▸ hfresh)
    exact hid ▸ hdelayed
  · refine ⟨?_, ?_⟩
    · have hhandled := hplaced.handle answers hfound hworked.taken (hworked.payload ▸ hrequest)
        (fun entry hmem => hmem) (List.nodup_cons.mpr ⟨hid ▸ hfresh, h.once⟩)
      exact hid ▸ hhandled
    · intro other hmem hstatus
      rcases hworked.mem hmem with rfl | hold
      · obtain ⟨result, hstored, -, hresult⟩ := hworked.success hstatus
        obtain ⟨order, hreply, hticket⟩ := hanswer result hresult
        refine ⟨order, result, List.mem_append_right _ (List.mem_singleton.mpr ?_), hstored,
          hticket⟩
        rw [hid, hreply]
        rfl
      · obtain ⟨order, stored, hdone, hstored⟩ := h.filled other hold hstatus
        exact ⟨order, stored, List.mem_append_left _ hdone, hstored⟩

theorem Booked.step {text : BridgeText} {d : Desk} (h : Booked text d) (event : DeskEvent) :
    Booked text (d.step text event) := by
  cases event with
  | enqueue id signalId accountId userId lotSize payload now =>
      exact h.enqueue id signalId accountId userId lotSize payload now
  | cancel id now => exact h.cancel id now
  | work cfg env delivery answers =>
      cases hsends : sends cfg env d.jobs with
      | none =>
          rw [Desk.step_work_idle hsends]
          exact h.idle hsends
      | some job =>
          rw [Desk.step_work hsends]
          exact h.exchange hsends delivery answers
  | late place answers => exact h.arrived place answers
  | health up =>
      refine h.bridge ?_
      show (isConnected up d.bridge).2.replies = _
      unfold isConnected
      split <;> rfl
  | shutdown =>
      refine h.bridge ?_
      show (SphereFx.Live.shutdown d.bridge).replies = _
      unfold SphereFx.Live.shutdown
      split <;> rfl

private theorem booked_start (text : BridgeText) : Booked text .start where
  orderly := ⟨rfl, rfl⟩
  replies := rfl
  once := List.nodup_nil
  late _ _ h := absurd h List.not_mem_nil
  placed _ _ h := absurd h List.not_mem_nil
  filled _ h := absurd h List.not_mem_nil

theorem booked_run (text : BridgeText) (events : List DeskEvent) : Booked text (.run text events) :=
  visited_invariant (fun h => h.step _) (booked_start text) _ (foldl_mem_visited _ _ _)

/-- In every run of the desk each job is requested at most once, the tickets of the bridge's replies
are those of the orders that the broker has done, and each of these is the order of a taken job's
payload. A row is `SUCCESS` only with the ticket of the order that was done for it. -/
theorem books_agree (text : BridgeText) (events : List DeskEvent) :
    (Desk.run text events).requested.Nodup ∧
      (Desk.run text events).exchanges.filterMap (fun entry => ticketOf entry.2) =
        (Desk.run text events).bridge.calls.filterMap TerminalCall.ticket? ∧
      (∀ id order, (id, .ok order) ∈ (Desk.run text events).exchanges →
        ∃ row ∈ (Desk.run text events).jobs.rows, row.id = id ∧ row.status.taken = true ∧
          Ordered text (Desk.run text events).bridge.calls row.payload order) ∧
      ∀ row ∈ (Desk.run text events).jobs.rows, row.status = .success →
        ∃ order stored, (row.id, .ok order) ∈ (Desk.run text events).exchanges ∧
          row.result = some stored ∧ storedTicket stored = some (order.ticket : ℚ) := by
  have h := booked_run text events
  refine ⟨h.once, ?_, ?_, h.filled⟩
  · rw [← h.orderly.tickets, ← h.replies, List.filterMap_map]
    rfl
  · intro id order hmem
    obtain ⟨row, hrow, htaken, hordered⟩ := h.placed id (.ok order) hmem
    obtain ⟨hrows, hid⟩ := Table.find?_eq_some.mp hrow
    exact ⟨row, hrows, hid, htaken, hordered order rfl⟩

/-! ### Runs without a fault -/

/-- The broker's price is a number, the response reaches the worker, and the worker stores it. -/
def DeskEvent.Smooth : DeskEvent → Prop
  | .work _ env delivery answers =>
      delivery = .answered ∧ env.panicAt = none ∧ env.successWrite = .done ∧
        ∀ sent, answers.orderSend = some sent → ∃ price, sent.price = .fin price
  | _ => True

private theorem slippageBps_fin (entry price : ℚ) :
    ∃ bps, slippageBps (some (.fin entry)) (.fin price) = .fin bps := by
  simp only [slippageBps]
  split
  · exact ⟨0, rfl⟩
  · next hzero =>
    have hentry : entry ≠ 0 := by
      rintro rfl
      exact hzero rfl
    exact ⟨|price - entry| / entry * 10000, by
      rw [F64.sub_fin, F64.abs_fin, F64.div_fin hentry, F64.mul_fin]⟩

private theorem entryPrice_of_sends {text : BridgeText} {cfg : Config} {env : Env} {jobs : JobTable}
    {job : LiveJob} {request : OrderRequest} (hsends : sends cfg env jobs = some job)
    (hrequest : text.request? job.payload = some request) :
    ∃ entry, request.entryPrice = some (.fin entry) := by
  have haccept : validateJob cfg env.data env.failures job = .ok () := by
    unfold sends at hsends
    split at hsends
    · split at hsends
      · cases hsends
      · obtain ⟨⟨⟩, hvalid, rfl⟩ := Option.map_eq_some_iff.mp hsends
        exact toOption_eq_some.mp hvalid
    · cases hsends
  obtain ⟨fields, hfields, hinput⟩ := validateJob_eq_ok.mp haccept
  obtain ⟨fields', hfields', hvalid⟩ := request?_eq_some.mp hrequest
  obtain rfl : fields = fields' := Except.ok.inj (hfields.symm.trans hfields')
  obtain ⟨hnonzero, -⟩ := checkStopSide_eq_ok.mp (validateInput_eq_ok.mp hinput).stopSide
  obtain ⟨entry, -, -, hentry⟩ := number_of_nonzero hnonzero
  exact ⟨entry, Option.some.inj
    ((validateOrder_eq_some.mp hvalid).entryPrice.symm.trans (optionalFloat_remarshal hentry))⟩

/-- The row is a success under this ticket. -/
def LiveJob.HasTicket (row : LiveJob) (ticket : Int) : Prop :=
  row.status = .success ∧
    ∃ stored, row.result = some stored ∧ storedTicket stored = some (ticket : ℚ)

/-- Every order that was done has its row, and no request is on its way. -/
structure Recorded (d : Desk) : Prop where
  late : d.late = []
  recorded : ∀ id order, (id, .ok order) ∈ d.exchanges →
    ∃ row ∈ d.jobs.rows, row.id = id ∧ row.HasTicket order.ticket

theorem Recorded.keep {d : Desk} (h : Recorded d) {jobs : JobTable}
    (hkept : ∀ row ∈ d.jobs.rows, row.status.taken = true → row ∈ jobs.rows) :
    Recorded { d with jobs := jobs } where
  late := h.late
  recorded id order hmem := by
    obtain ⟨row, hrow, hid, hticket⟩ := h.recorded id order hmem
    exact ⟨row, hkept row hrow (by rw [hticket.1]; rfl), hid, hticket⟩

theorem processNextJob_keeps (cfg : Config) (env : Env) {jobs : JobTable} :
    ∀ row ∈ jobs.rows, row.status.taken = true → row ∈ (processNextJob cfg env jobs).2.rows := by
  rcases processNextJob_spec cfg env jobs with ⟨hsame, -⟩ | ⟨row, row', hworked, -⟩
  · rw [hsame]
    exact fun _ hrow _ => hrow
  · exact fun _ => hworked.mem_of_taken

private theorem executeOrder_of_reply {text : BridgeText} {job : LiveJob} {order : OrderResponse}
    {fields : List (String × Json)} {price bps : ℚ}
    (hfields : job.payload.unmarshalMap = .ok fields) (hprice : order.fillPrice = .fin price)
    (hbps : order.slippageBps = .fin bps) :
    executeOrder job (text.response (.ok order)) = .ok (replyBody order price bps).remarshal := by
  simp only [executeOrder, hfields, BridgeText.response, hprice, hbps]
  rfl

theorem Recorded.exchange {text : BridgeText} {d : Desk} (h : Recorded d) {cfg : Config} {env : Env}
    {job : LiveJob} {answers : TerminalAnswers} (hsends : sends cfg env d.jobs = some job)
    (hsmooth : (DeskEvent.work cfg env .answered answers).Smooth) :
    Recorded { (d.exchange text .answered answers job).2 with
      jobs := (processNextJob cfg
        { env with http := (d.exchange text .answered answers job).1 } d.jobs).2 } := by
  obtain ⟨-, hpanic, hwrite, hnumber⟩ := hsmooth
  unfold Desk.exchange
  cases hrequest : text.request? job.payload with
  | none => exact h.keep (processNextJob_keeps cfg _)
  | some request =>
      have hold := h.keep (processNextJob_keeps cfg
        { env with http := text.response (executeReply (sendOrder request answers d.bridge).1) })
      refine ⟨h.late, fun id order hmem => ?_⟩
      rcases List.mem_append.mp hmem with hdone | hnew
      · exact hold.recorded id order hdone
      obtain ⟨rfl, hreply⟩ := Prod.mk.inj (List.mem_singleton.mp hnew)
      -- The broker has done the order: the response can be read, and it is stored.
      obtain ⟨trade, sent, -, hsent, -, -, horder⟩ := sendOrder_of_reply hreply.symm
      obtain ⟨price, hprice⟩ := hnumber sent hsent
      obtain ⟨entry, hentry⟩ := entryPrice_of_sends hsends hrequest
      obtain ⟨bps, hbps⟩ := slippageBps_fin entry price
      rw [hprice, hentry, hbps] at horder
      obtain ⟨fields, hfields, -⟩ := request?_eq_some.mp hrequest
      have hresult : executeOrder job (text.response (.ok order)) =
          .ok (replyBody order price bps).remarshal :=
        executeOrder_of_reply hfields (by rw [horder]) (by rw [horder])
      rw [hreply] at hresult
      obtain ⟨row, hselect, rfl, htable⟩ := @processNextJob_of_answer cfg
        { env with http := text.response (executeReply (sendOrder request answers d.bridge).1) }
        d.jobs _ _ hsends hpanic hwrite hresult
      have hfound := find?_markFinished (find?_markClaimed (selected_find? hselect) env.now) env.now
        .success (replyBody order price bps).remarshal
      obtain ⟨hrow, hid⟩ := Table.find?_eq_some.mp hfound
      refine ⟨_, ?_, hid, rfl, _, rfl, storedTicket_replyBody order price bps⟩
      show _ ∈ (processNextJob cfg _ d.jobs).2.rows
      rw [htable]
      exact hrow

theorem Recorded.step {text : BridgeText} {d : Desk} {event : DeskEvent} (h : Recorded d)
    (hsmooth : event.Smooth) : Recorded (d.step text event) := by
  cases event with
  | enqueue id signalId accountId userId lotSize payload now =>
      exact h.keep fun row hmem _ => mem_enqueueJob hmem
  | cancel id now => exact h.keep fun row hmem htaken => mem_cancelJob_of_taken htaken hmem
  | work cfg env delivery answers =>
      obtain rfl := hsmooth.1
      cases hsends : sends cfg env d.jobs with
      | none =>
          rw [Desk.step_work_idle hsends]
          exact h.keep (processNextJob_keeps cfg env)
      | some job =>
          rw [Desk.step_work hsends]
          exact h.exchange hsends hsmooth
  | late place answers =>
      have hnone : d.late[place]? = none := by
        rw [h.late]
        exact List.getElem?_nil
      rw [Desk.step_late_none hnone]
      exact h
  | health up => exact ⟨h.late, h.recorded⟩
  | shutdown => exact ⟨h.late, h.recorded⟩

private theorem recorded_run {text : BridgeText} {events : List DeskEvent}
    (h : ∀ event ∈ events, event.Smooth) : Recorded (.run text events) :=
  visited_of_along (fun h hsmooth => h.step hsmooth) ⟨rfl, fun _ _ h => absurd h List.not_mem_nil⟩
    (along_of_forall (fun event hevent _ => h event hevent) _) _ (foldl_mem_visited _ _ _)

/-- Without a fault the table is exact: a row is `SUCCESS` under a ticket exactly when the broker
has done the row's order under that ticket. -/
theorem success_iff_filled (text : BridgeText) (events : List DeskEvent)
    (hsmooth : ∀ event ∈ events, event.Smooth) :
    ∀ row ∈ (Desk.run text events).jobs.rows, ∀ ticket, row.HasTicket ticket ↔
      ∃ order, (row.id, .ok order) ∈ (Desk.run text events).exchanges ∧ order.ticket = ticket := by
  intro row hrow ticket
  constructor
  · rintro ⟨hstatus, stored, hstored, hticket⟩
    obtain ⟨order, stored', hdone, hstored', hticket'⟩ :=
      (booked_run text events).filled row hrow hstatus
    refine ⟨order, hdone, ?_⟩
    obtain rfl : stored = stored' := Option.some.inj (hstored.symm.trans hstored')
    exact Int.cast_injective (Option.some.inj (hticket'.symm.trans hticket))
  · rintro ⟨order, hdone, rfl⟩
    obtain ⟨other, hother, hid, hticket⟩ := (recorded_run hsmooth).recorded row.id order hdone
    have hsame : other = row :=
      List.inj_on_of_nodup_map (Desk.run text events).jobs.unique hother hrow hid
    exact hsame ▸ hticket

/-- Terminal and broker do what they are asked. -/
def readyTerminal : TerminalAnswers :=
  ⟨true, true, some quote, some ⟨tradeRetcodeDone, "", 77, .fin (11 / 10)⟩⟩

def plainText : BridgeText := ⟨fun _ => none, fun _ => "", fun _ => .null⟩

def oneFilled : List DeskEvent :=
  [.enqueue 42 7 3 9 1 buyJob.payload 5, .work defaultConfig (fillEnv none) .answered readyTerminal]

theorem success_iff_filled_of_one :
    ∃ row ∈ (Desk.run plainText oneFilled).jobs.rows, row.HasTicket 77 := by
  have hsmooth : ∀ event ∈ oneFilled, event.Smooth := by
    intro event hevent
    rcases List.mem_cons.mp hevent with rfl | hevent
    · exact trivial
    · obtain rfl := List.mem_singleton.mp hevent
      exact ⟨rfl, rfl, rfl, fun sent hsent => ⟨11 / 10, (Option.some.inj hsent) ▸ rfl⟩⟩
  have hdone : (Desk.run plainText oneFilled).exchanges.map
      (fun entry => (entry.1, ticketOf entry.2)) = [(42, some 77)] := by with_unfolding_all decide
  have hrow : ((Desk.run plainText oneFilled).jobs.find? 42).isSome = true := by
    with_unfolding_all decide
  obtain ⟨row, hrow⟩ := Option.isSome_iff_exists.mp hrow
  obtain ⟨hmem, hid⟩ := Table.find?_eq_some.mp hrow
  obtain ⟨⟨id, reply⟩, hentry, hpair⟩ := List.mem_map.mp
    (hdone ▸ List.mem_singleton.mpr rfl : (42, some (77 : Int)) ∈ _)
  obtain ⟨rfl, hticket⟩ := Prod.mk.inj hpair
  refine ⟨row, hmem, (success_iff_filled plainText oneFilled hsmooth row hmem 77).mpr ?_⟩
  cases reply with
  | error detail => cases hticket
  | ok order => exact ⟨order, hid ▸ hentry, Option.some.inj hticket⟩

end SphereFx.Live
