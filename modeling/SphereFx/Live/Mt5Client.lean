import SphereFx.Base.Run
import SphereFx.Live.Bridge

/-!
# The bridge's session with MetaTrader

`MT5Client` opens a session when the first order asks for it, and the bridge's `/execute` and
`/health` share the one client. The state keeps every call of the MetaTrader package with what the
package answered, and every reply of `/execute`, so that both can be compared.
-/

namespace SphereFx.Live

/-- What `mt5.order_send` answers. -/
structure SendResult where
  retcode : Int
  comment : String
  order : Int
  price : F64

/-- `mt5.TRADE_RETCODE_DONE`. -/
def tradeRetcodeDone : Int := 10009

/-- A call of the MetaTrader package and its answer. -/
inductive TerminalCall where
  | initialise (ok : Bool)
  | login (ok : Bool)
  | shutdown
  | terminalInfo (up : Bool)
  | symbolInfo (found : Option SymbolInfo)
  | orderSend (trade : TradeRequest) (result : Option SendResult)

/-- What the package would answer during one request. -/
structure TerminalAnswers where
  initialise : Bool
  login : Bool
  symbolInfo : Option SymbolInfo
  orderSend : Option SendResult

structure MT5OrderResult where
  success : Bool
  ticket : Int
  fillPrice : F64
  slippageBps : F64
  errorMessage : Option String

structure OrderResponse where
  ticket : Int
  fillPrice : F64
  slippageBps : F64
  status : String

/-- The client's flag, the calls so far and the replies so far. -/
structure Mt5Bridge where
  connected : Bool
  calls : List TerminalCall
  replies : List (Except String OrderResponse)

namespace Mt5Bridge

def start : Mt5Bridge := ⟨false, [], []⟩

def call (b : Mt5Bridge) (c : TerminalCall) : Mt5Bridge := { b with calls := b.calls ++ [c] }

@[simp] theorem call_calls (b : Mt5Bridge) (c : TerminalCall) : (b.call c).calls = b.calls ++ [c] := rfl
@[simp] theorem call_connected (b : Mt5Bridge) (c : TerminalCall) :
    (b.call c).connected = b.connected := rfl
@[simp] theorem call_replies (b : Mt5Bridge) (c : TerminalCall) : (b.call c).replies = b.replies := rfl

end Mt5Bridge

/-! ### The client -/

/-- `MT5Client.connect`. -/
def connect (answers : TerminalAnswers) (b : Mt5Bridge) : Bool × Mt5Bridge :=
  if b.connected then (true, b)
  else
    let b := b.call (.initialise answers.initialise)
    if answers.initialise = false then (false, b)
    else
      let b := b.call (.login answers.login)
      if answers.login = false then (false, b.call .shutdown)
      else (true, { b with connected := true })

/-- `MT5Client.is_connected`. -/
def isConnected (up : Bool) (b : Mt5Bridge) : Bool × Mt5Bridge :=
  if b.connected then (up, b.call (.terminalInfo up)) else (false, b)

/-- `MT5Client.shutdown`. -/
def shutdown (b : Mt5Bridge) : Mt5Bridge :=
  if b.connected then { b.call .shutdown with connected := false } else b

def failedOrder (message : String) : MT5OrderResult := ⟨false, 0, 0, 0, some message⟩

/-- The slippage of a fill in basis points, if there is a price to compare it with. -/
def slippageBps (entryPrice : Option F64) (price : F64) : F64 :=
  match entryPrice with
  | none => 0
  | some entry =>
      if entry.eq 0 || price.eq 0 then 0 else (price - entry).abs / entry * .fin 10000

/-- What `send_order` makes of the broker's answer; `None` has no `retcode`. -/
def brokerResult (request : OrderRequest) : Option SendResult → Except String MT5OrderResult
  | none => .error "'NoneType' object has no attribute 'retcode'"
  | some result =>
      if result.retcode ≠ tradeRetcodeDone then
        .ok (failedOrder ("Order failed: " ++ toString result.retcode ++ " - " ++ result.comment))
      else
        .ok ⟨true, result.order, result.price, slippageBps request.entryPrice result.price, none⟩

/-- `MT5Client.send_order`; an error is an exception. -/
def sendOrder (request : OrderRequest) (answers : TerminalAnswers) (b : Mt5Bridge) :
    Except String MT5OrderResult × Mt5Bridge :=
  match connect answers b with
  | (false, b) => (.ok (failedOrder "MT5 not connected"), b)
  | (true, b) =>
      let b := b.call (.symbolInfo answers.symbolInfo)
      match knownSymbol answers.symbolInfo request.symbol with
      | .error message => (.ok (failedOrder message), b)
      | .ok _ =>
          match tradeRequest true answers.symbolInfo request with
          | .error exception => (.error exception, b)
          | .ok trade =>
              (brokerResult request answers.orderSend, b.call (.orderSend trade answers.orderSend))

/-! ### The bridge -/

/-- The reply of `/execute`. Its `except Exception` also catches the 400 raised a few lines above. -/
def executeReply : Except String MT5OrderResult → Except String OrderResponse
  | .error exception => .error exception
  | .ok result =>
      if result.success then .ok ⟨result.ticket, result.fillPrice, result.slippageBps, "FILLED"⟩
      else .error ("400: Order failed: " ++ result.errorMessage.getD "None")

inductive BridgeEvent where
  | execute (request : OrderRequest) (answers : TerminalAnswers)
  | health (up : Bool)
  | shutdown

/-- One event. The handlers await nothing, so that they run one after the other. -/
def Mt5Bridge.step (b : Mt5Bridge) : BridgeEvent → Mt5Bridge
  | .execute request answers =>
      let (result, after) := sendOrder request answers b
      { after with replies := after.replies ++ [executeReply result] }
  | .health up => (isConnected up b).2
  | .shutdown => SphereFx.Live.shutdown b

/-! ### The package's protocol -/

/-- A session as the package sees it. -/
inductive Terminal where
  | closed
  | initialised
  | refused
  | loggedIn
  deriving DecidableEq, Repr

/-- The calls the package can use: a session is initialised once and then logged in, a refused login
is followed by a shutdown, and orders are sent by a session that is logged in. -/
def Terminal.next : Terminal → TerminalCall → Option Terminal
  | .closed, .initialise ok => some (if ok then .initialised else .closed)
  | .initialised, .login ok => some (if ok then .loggedIn else .refused)
  | .refused, .shutdown => some .closed
  | .loggedIn, .terminalInfo _ => some .loggedIn
  | .loggedIn, .symbolInfo _ => some .loggedIn
  | .loggedIn, .orderSend _ _ => some .loggedIn
  | .loggedIn, .shutdown => some .closed
  | _, _ => none

/-- The session that the flag stands for. -/
def sessionOf (connected : Bool) : Terminal := if connected then .loggedIn else .closed

/-- The calls follow the protocol and the flag says where it is. -/
def InSession (b : Mt5Bridge) : Prop :=
  runFrom Terminal.next .closed b.calls = some (sessionOf b.connected)

/-- The order that a call has made. -/
def TerminalCall.ticket? : TerminalCall → Option Int
  | .orderSend _ (some result) =>
      if result.retcode = tradeRetcodeDone then some result.order else none
  | _ => none

def ticketOf (reply : Except String OrderResponse) : Option Int :=
  reply.toOption.map OrderResponse.ticket

/-- A call that neither opens nor closes a session. -/
def TerminalCall.inside : TerminalCall → Bool
  | .terminalInfo _ | .symbolInfo _ | .orderSend _ _ => true
  | _ => false

theorem next_call {b : Mt5Bridge} {terminal after : Terminal}
    (h : runFrom Terminal.next .closed b.calls = some terminal) (c : TerminalCall)
    (hnext : terminal.next c = some after) :
    runFrom Terminal.next .closed (b.call c).calls = some after := by
  rw [Mt5Bridge.call_calls, runFrom_append, h]
  simp only [Option.bind_some, runFrom, hnext]

/-- `connect` opens a session that follows the protocol, or leaves it closed. -/
private theorem connect_inSession (answers : TerminalAnswers) {b : Mt5Bridge} (h : InSession b) :
    InSession (connect answers b).2 ∧ (connect answers b).1 = (connect answers b).2.connected := by
  unfold connect
  cases hflag : b.connected with
  | true =>
      rw [if_pos rfl]
      exact ⟨h, hflag.symm⟩
  | false =>
      have hclosed : runFrom Terminal.next .closed b.calls = some .closed := by
        unfold InSession at h
        rw [h, hflag]
        rfl
      rw [if_neg Bool.false_ne_true]
      cases hinit : answers.initialise with
      | false =>
          rw [if_pos rfl]
          refine ⟨?_, hflag.symm⟩
          have hcall := next_call hclosed (.initialise false) rfl
          unfold InSession
          rw [hcall, Mt5Bridge.call_connected, hflag]
          rfl
      | true =>
          rw [if_neg (by simp)]
          have hopen := next_call hclosed (.initialise true) rfl
          cases hlogin : answers.login with
          | false =>
              rw [if_pos rfl]
              refine ⟨?_, hflag.symm⟩
              have hrefused := next_call hopen (.login false) rfl
              have hshut := next_call hrefused .shutdown rfl
              unfold InSession
              rw [hshut]
              simp only [Mt5Bridge.call_connected, hflag]
              rfl
          | true =>
              rw [if_neg (by simp)]
              exact ⟨next_call hopen (.login true) rfl, rfl⟩

@[simp] theorem ticketOf_failedOrder (message : String) :
    ticketOf (executeReply (.ok (failedOrder message))) = none := by
  simp [executeReply, failedOrder, ticketOf, Except.toOption]

@[simp] theorem ticketOf_error (exception : String) :
    ticketOf (executeReply (.error exception)) = none := by
  simp [executeReply, ticketOf, Except.toOption]

private theorem runFrom_inside {calls : List TerminalCall} (h : ∀ c ∈ calls, c.inside = true) :
    runFrom Terminal.next .loggedIn calls = some .loggedIn := by
  induction calls with
  | nil => rfl
  | cons c rest ih =>
      have hrest := ih fun c hc => h c (List.mem_cons_of_mem _ hc)
      have hc : c.inside = true := h c List.mem_cons_self
      cases c with
      | terminalInfo up => exact hrest
      | symbolInfo found => exact hrest
      | orderSend trade result => exact hrest
      | initialise ok => cases hc
      | login ok => cases hc
      | shutdown => cases hc

/-- `connect` makes no order, and does nothing in an open session. -/
theorem connect_calls (answers : TerminalAnswers) (b : Mt5Bridge) :
    (connect answers b).2.replies = b.replies ∧
      ∃ opening, (connect answers b).2.calls = b.calls ++ opening ∧
        opening.filterMap TerminalCall.ticket? = [] ∧ (b.connected = true → opening = []) := by
  unfold connect
  split
  · exact ⟨rfl, [], (List.append_nil _).symm, rfl, fun _ => rfl⟩
  · next hflag =>
    split
    · exact ⟨rfl, [.initialise answers.initialise], rfl, rfl, fun h => absurd h hflag⟩
    · split
      · refine ⟨rfl, [.initialise answers.initialise, .login answers.login, .shutdown], ?_, rfl,
          fun h => absurd h hflag⟩
        simp
      · refine ⟨rfl, [.initialise answers.initialise, .login answers.login], ?_, rfl,
          fun h => absurd h hflag⟩
        simp

/-- After `connect` an order makes only calls inside the session, and the reply has a ticket exactly
when one of them has made an order. -/
theorem sendOrder_calls (request : OrderRequest) (answers : TerminalAnswers) (b : Mt5Bridge) :
    ∃ made, (sendOrder request answers b).2 =
        { (connect answers b).2 with calls := (connect answers b).2.calls ++ made } ∧
      (∀ c ∈ made, c.inside = true) ∧ ((connect answers b).1 = false → made = []) ∧
      made.filterMap TerminalCall.ticket? =
        (ticketOf (executeReply (sendOrder request answers b).1)).toList := by
  unfold sendOrder
  generalize connect answers b = opened
  obtain ⟨ok, after⟩ := opened
  cases ok with
  | false =>
      refine ⟨[], by rw [List.append_nil], by simp, by simp, ?_⟩
      exact (congrArg Option.toList (ticketOf_failedOrder _)).symm
  | true =>
      have hlooked : ∀ reply : Except String MT5OrderResult, ticketOf (executeReply reply) = none →
          [TerminalCall.symbolInfo answers.symbolInfo].filterMap TerminalCall.ticket? =
            (ticketOf (executeReply reply)).toList := fun reply h => by simp [h, TerminalCall.ticket?]
      simp only
      cases knownSymbol answers.symbolInfo request.symbol with
      | error message =>
          exact ⟨[.symbolInfo answers.symbolInfo], rfl, by simp [TerminalCall.inside], nofun,
            hlooked _ (ticketOf_failedOrder message)⟩
      | ok info =>
          cases tradeRequest true answers.symbolInfo request with
          | error exception =>
              exact ⟨[.symbolInfo answers.symbolInfo], rfl, by simp [TerminalCall.inside], nofun,
                hlooked _ (ticketOf_error exception)⟩
          | ok trade =>
              refine ⟨[.symbolInfo answers.symbolInfo, .orderSend trade answers.orderSend], ?_, ?_,
                nofun, ?_⟩
              · simp [Mt5Bridge.call]
              · simp [TerminalCall.inside]
              · cases answers.orderSend with
                | none => simp [brokerResult, TerminalCall.ticket?]
                | some result =>
                    by_cases hdone : result.retcode = tradeRetcodeDone
                    · simp [List.filterMap_cons, TerminalCall.ticket?, hdone, brokerResult,
                        executeReply, ticketOf, Except.toOption]
                    · simp [TerminalCall.ticket?, hdone, brokerResult]

/-! ### Whole runs -/

/-- What every event keeps: the protocol, and one ticket for each order made. -/
structure Orderly (b : Mt5Bridge) : Prop where
  session : InSession b
  tickets : b.replies.filterMap ticketOf = b.calls.filterMap TerminalCall.ticket?

theorem Orderly.execute {b : Mt5Bridge} (h : Orderly b) (request : OrderRequest)
    (answers : TerminalAnswers) : Orderly (b.step (.execute request answers)) := by
  obtain ⟨hsession, hflag⟩ := connect_inSession answers h.session
  obtain ⟨hreplies, opening, hopening, hnone, -⟩ := connect_calls answers b
  obtain ⟨made, hafter, hinside, hclosed, htickets⟩ := sendOrder_calls request answers b
  have hstep : b.step (.execute request answers) = { (sendOrder request answers b).2 with
      replies := (sendOrder request answers b).2.replies ++
        [executeReply (sendOrder request answers b).1] } := rfl
  constructor
  · rw [hstep, hafter]
    unfold InSession at hsession ⊢
    show runFrom Terminal.next .closed ((connect answers b).2.calls ++ made) = _
    rw [runFrom_append, hsession]
    cases hok : (connect answers b).1 with
    | false =>
        rw [hclosed hok]
        rfl
    | true =>
        show runFrom Terminal.next (sessionOf (connect answers b).2.connected) made =
          some (sessionOf (connect answers b).2.connected)
        rw [← hflag, hok]
        exact runFrom_inside hinside
  · rw [hstep, hafter]
    show ((connect answers b).2.replies ++ _).filterMap ticketOf =
      ((connect answers b).2.calls ++ made).filterMap TerminalCall.ticket?
    rw [List.filterMap_append, List.filterMap_append, hreplies, hopening, List.filterMap_append, hnone,
      htickets, h.tickets, List.append_nil]
    cases hticket : ticketOf (executeReply (sendOrder request answers b).1) with
    | none => rw [List.filterMap_cons_none hticket]; rfl
    | some ticket => rw [List.filterMap_cons_some hticket]; rfl

theorem Orderly.step {b : Mt5Bridge} (h : Orderly b) (event : BridgeEvent) : Orderly (b.step event) := by
  cases event with
  | execute request answers => exact h.execute request answers
  | health up =>
      show Orderly (isConnected up b).2
      unfold isConnected
      split
      · next hflag =>
        have hopen : runFrom Terminal.next .closed b.calls = some .loggedIn := by
          rw [h.session, hflag]
          rfl
        constructor
        · unfold InSession
          rw [next_call hopen (.terminalInfo up) rfl, Mt5Bridge.call_connected, hflag]
          rfl
        · show b.replies.filterMap ticketOf = (b.calls ++ [_]).filterMap TerminalCall.ticket?
          rw [List.filterMap_append, h.tickets]
          exact (List.append_nil _).symm
      · exact h
  | shutdown =>
      show Orderly (shutdown b)
      unfold SphereFx.Live.shutdown
      split
      · next hflag =>
        have hopen : runFrom Terminal.next .closed b.calls = some .loggedIn := by
          rw [h.session, hflag]
          rfl
        constructor
        · exact next_call hopen .shutdown rfl
        · show b.replies.filterMap ticketOf = (b.calls ++ [_]).filterMap TerminalCall.ticket?
          rw [List.filterMap_append, h.tickets]
          exact (List.append_nil _).symm
      · exact h

/-- In every run of the bridge the calls of the package follow its protocol: no order is sent outside
a session that is logged in, no session is initialised twice, and a refused login is shut down. The
`FILLED` replies carry the tickets of the orders that the broker has done, each once and in order. -/
theorem bridge_orderly (events : List BridgeEvent) :
    runFrom Terminal.next .closed (events.foldl Mt5Bridge.step .start).calls =
        some (sessionOf (events.foldl Mt5Bridge.step .start).connected) ∧
      (events.foldl Mt5Bridge.step .start).replies.filterMap ticketOf =
        (events.foldl Mt5Bridge.step .start).calls.filterMap TerminalCall.ticket? := by
  have hrun : Orderly (events.foldl Mt5Bridge.step .start) :=
    visited_invariant (fun h => h.step _) ⟨rfl, rfl⟩ _ (foldl_mem_visited _ _ _)
  exact ⟨hrun.session, hrun.tickets⟩

private theorem step_in_session {b : Mt5Bridge} (h : b.connected = true) {event : BridgeEvent}
    (hevent : event ≠ .shutdown) :
    (b.step event).connected = true ∧
      ∃ made, (b.step event).calls = b.calls ++ made ∧ ∀ c ∈ made, c.inside = true := by
  cases event with
  | execute request answers =>
      obtain ⟨made, hafter, hinside, -⟩ := sendOrder_calls request answers b
      have hconnect : connect answers b = (true, b) := if_pos h
      rw [hconnect] at hafter
      have hstep : b.step (.execute request answers) = { (sendOrder request answers b).2 with
          replies := (sendOrder request answers b).2.replies ++
            [executeReply (sendOrder request answers b).1] } := rfl
      rw [hstep, hafter]
      exact ⟨h, made, rfl, hinside⟩
  | health up =>
      have hhealth : b.step (.health up) = b.call (.terminalInfo up) := by
        show (isConnected up b).2 = _
        rw [isConnected, if_pos h]
      rw [hhealth]
      exact ⟨h, [.terminalInfo up], rfl, by simp [TerminalCall.inside]⟩
  | shutdown => exact absurd rfl hevent

private theorem run_in_session {b : Mt5Bridge} (h : b.connected = true) {events : List BridgeEvent}
    (hevents : ∀ event ∈ events, event ≠ .shutdown) :
    (events.foldl Mt5Bridge.step b).connected = true ∧
      ∃ made, (events.foldl Mt5Bridge.step b).calls = b.calls ++ made ∧
        ∀ c ∈ made, c.inside = true := by
  induction events generalizing b with
  | nil => exact ⟨h, [], (List.append_nil _).symm, by simp⟩
  | cons event rest ih =>
      obtain ⟨hopen, made, hmade, hinside⟩ := step_in_session h (hevents event List.mem_cons_self)
      obtain ⟨hstill, later, hlater, hlaterInside⟩ :=
        ih hopen fun other hother => hevents other (List.mem_cons_of_mem _ hother)
      refine ⟨hstill, made ++ later, ?_, ?_⟩
      · rw [List.foldl_cons, hlater, hmade, List.append_assoc]
      · intro c hc
        exact (List.mem_append.mp hc).elim (hinside c) (hlaterInside c)

/-- Once the client has connected, no request opens a session again, whatever becomes of the terminal:
every order for which a lost terminal has no symbol is refused, after any number of requests. -/
theorem lost_session_stays_lost {events more : List BridgeEvent}
    (hopen : (events.foldl Mt5Bridge.step .start).connected = true)
    (hmore : ∀ event ∈ more, event ≠ .shutdown) :
    (∃ made, ((events ++ more).foldl Mt5Bridge.step .start).calls =
        (events.foldl Mt5Bridge.step .start).calls ++ made ∧ ∀ c ∈ made, c.inside = true) ∧
      ∀ request answers, answers.symbolInfo = none →
        (((events ++ more).foldl Mt5Bridge.step .start).step (.execute request answers)).replies =
          ((events ++ more).foldl Mt5Bridge.step .start).replies ++
            [.error ("400: Order failed: " ++ ("Symbol " ++ request.symbol ++ " not found"))] := by
  rw [List.foldl_append]
  obtain ⟨hstill, hcalls⟩ := run_in_session hopen hmore
  refine ⟨hcalls, fun request answers hnone => ?_⟩
  generalize more.foldl Mt5Bridge.step (events.foldl Mt5Bridge.step .start) = b at hstill
  have hconnect : connect answers b = (true, b) := if_pos hstill
  have hsend : sendOrder request answers b =
      (.ok (failedOrder ("Symbol " ++ request.symbol ++ " not found")), b.call (.symbolInfo none)) := by
    rw [sendOrder, hconnect, hnone]
    rfl
  show (sendOrder request answers b).2.replies ++ [executeReply (sendOrder request answers b).1] = _
  rw [hsend]
  simp [executeReply, failedOrder]

/-- A terminal that accepts the login and then has no symbols. -/
def emptyTerminal : TerminalAnswers := ⟨true, true, none, none⟩

def marketOrder : OrderRequest := ⟨"EURUSD", .buy, .market, .fin (1 / 10), none, none, none, none⟩

def oneOrder : List BridgeEvent := [.execute marketOrder emptyTerminal]

theorem lost_session_of_one :
    (oneOrder.foldl Mt5Bridge.step .start).connected = true ∧
      ∃ made, ((oneOrder ++ [BridgeEvent.health false]).foldl Mt5Bridge.step .start).calls =
        (oneOrder.foldl Mt5Bridge.step .start).calls ++ made ∧ ∀ c ∈ made, c.inside = true :=
  ⟨rfl, (lost_session_stays_lost rfl fun event hevent => by
    rw [List.mem_singleton.mp hevent]
    exact nofun).1⟩

end SphereFx.Live
