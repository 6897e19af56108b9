import SphereFx.Api.RouteConflict
import SphereFx.Live.Carried

/-!
# The order that comes of a signal

Between a signal and its order lie three programs: the API writes a payload, the worker copies seven
of its fields into a request, and the bridge validates them and builds the order. `signalOrder` reads
the order off the signal itself. The two agree, and with `CarriesOnly` they agree for every job in a
worker's hands, however the requests and workers interleave.
-/

namespace SphereFx.Api

open SphereFx.Live

/-- The first target of a signal, if the bridge accepts the list: an empty list has none, and a first
level without a price is refused. -/
def signalTarget : Json → Option (Option Json)
  | .null => some none
  | .arr items =>
      (items.mapM Json.object?).bind fun levels =>
        match levels with
        | [] => some none
        | level :: _ => (Json.lookup level "price").map fun price => some price.remarshal
  | _ => none

/-- The order that a signal asks of MetaTrader, if it asks for one. -/
def signalOrder (signal : Signal) (lot : ℚ) (info : SymbolInfo) : Option TradeRequest := do
  guard (signal.symbol.length ≤ 20)
  let side ← Side.ofString signal.action
  let kind ← OrderType.ofString signal.orderType
  guard (0 < lot ∧ lot ≤ 100)
  let target ← signalTarget signal.takeProfit
  return {
    action := if kind = .market then .deal else .pending
    symbol := signal.symbol
    volume := .fin lot
    type := ⟨side, kind⟩
    price := ((nonZero signal.entryPrice).map .fin).getD (if side = .buy then info.ask else info.bid)
    sl := (nonZero signal.stopLoss).map .fin
    tp := target
    deviation := 20
    magic := 123456
    comment := "Sphere FX Manager"
    typeTime := .gtc
    typeFilling := .ioc }

theorem nonZero_cases (value : Option ℚ) :
    nonZero value = none ∧ priceOrNone value = .null ∨
      ∃ q, q ≠ 0 ∧ nonZero value = some q ∧ priceOrNone value = .dec q := by
  unfold priceOrNone
  cases h : nonZero value with
  | none => exact .inl ⟨rfl, rfl⟩
  | some q => exact .inr ⟨q, of_decide_eq_true (Option.filter_eq_some_iff.mp h).2, rfl, rfl⟩

theorem optionalFloat_priceOrNone (parseFloat : String → Option F64) (value : Option ℚ) :
    optionalFloat parseFloat (some (priceOrNone value).remarshal) =
      some ((nonZero value).map .fin) := by
  rcases nonZero_cases value with ⟨hnone, hprice⟩ | ⟨q, -, hsome, hprice⟩
  · rw [hnone, hprice]
    rfl
  · rw [hsome, hprice]
    exact optionalFloat_remarshal (Json.number?_dec q)

theorem orElse_priceOrNone (value : Option ℚ) (fallback : F64) :
    orElse ((nonZero value).map .fin) fallback = ((nonZero value).map .fin).getD fallback := by
  rcases nonZero_cases value with ⟨hnone, -⟩ | ⟨q, hq, hsome, -⟩
  · rw [hnone]
    rfl
  · rw [hsome]
    exact orElse_of_nonzero hq fallback

private theorem mapM_object?_map_remarshal (items : List Json) :
    (items.map Json.remarshal).mapM Json.object? =
      (items.mapM Json.object?).map fun levels => levels.map Json.remarshalFields := by
  induction items with
  | nil => rfl
  | cons item rest ih =>
      rw [List.map_cons, List.mapM_cons, List.mapM_cons, ih]
      cases item with
      | obj fields => cases rest.mapM Json.object? <;> rfl
      | int n =>
          simp only [Json.remarshal, Json.ofFloat64]
          split <;> rfl
      | dec q =>
          simp only [Json.remarshal, Json.ofFloat64]
          split <;> rfl
      | _ => rfl

/-- The bridge takes the first target as the signal has it. -/
private theorem firstTarget_signal (takeProfit : Json) :
    ((optionalDicts (some takeProfit.remarshal)).bind fun levels => (firstTarget levels).toOption) =
      signalTarget takeProfit := by
  cases takeProfit with
  | arr items =>
      simp only [Json.remarshal, Json.remarshalItems_eq_map, optionalDicts, signalTarget]
      rw [mapM_object?_map_remarshal]
      cases items.mapM Json.object? with
      | none => rfl
      | some levels =>
          cases levels with
          | nil => rfl
          | cons level rest =>
              simp only [Option.map_some, Option.bind_some, List.map_cons, firstTarget,
                Json.lookup_remarshalFields]
              cases Json.lookup level "price" <;> rfl
  | int n =>
      simp only [Json.remarshal, Json.ofFloat64]
      split <;> rfl
  | dec q =>
      simp only [Json.remarshal, Json.ofFloat64]
      split <;> rfl
  | _ => rfl

/-- The order that MetaTrader receives for a routed signal is the one that the signal asks for. -/
private theorem sentRequest_livePayload (parseFloat : String → Option F64) (info : SymbolInfo)
    (signal : Signal) (account : MT5Account) (lot : ℚ) :
    sentRequest parseFloat true (some info) (.obj (livePayload signal account lot)) =
      signalOrder signal lot info := by
  have hlot : laxFloat parseFloat (Json.dec lot).remarshal = some (.fin lot) :=
    laxFloat_remarshal (Json.number?_dec lot)
  have hentry := optionalFloat_priceOrNone parseFloat signal.entryPrice
  have hstop := optionalFloat_priceOrNone parseFloat signal.stopLoss
  have hbounds : ((0 : F64) < .fin lot ∧ F64.fin lot ≤ .fin 100) ↔ 0 < lot ∧ lot ≤ 100 := by
    rw [F64.zero_def, F64.fin_lt_fin, F64.fin_le_fin]
  ext trade
  rw [sentRequest_eq_some]
  simp only [signalOrder, ← firstTarget_signal, Option.bind_eq_bind, Option.bind_eq_some_iff,
    Option.guard_eq_some', Option.pure_def, Option.some.injEq, toOption_eq_some]
  constructor
  · rintro ⟨fields, request, hfields, hrequest, htrade⟩
    obtain rfl := Except.ok.inj hfields
    have hmatches := validateOrder_eq_some.mp hrequest
    obtain ⟨-, other, hother, htarget, heq⟩ := tradeRequest_eq_ok.mp htrade
    cases hother
    have hsymbol : signal.symbol = request.symbol := Option.some.inj hmatches.symbol
    have hsize : F64.fin lot = request.lotSize := Option.some.inj (hlot.symm.trans hmatches.lotSize)
    have hprice := Option.some.inj (hentry.symm.trans hmatches.entryPrice)
    have hsl := Option.some.inj (hstop.symm.trans hmatches.stopLoss)
    refine ⟨(), hsymbol ▸ hmatches.symbolLength, request.action, hmatches.action, request.orderType,
      hmatches.orderType, (), hbounds.mp (hsize ▸ hmatches.bounds), trade.tp,
      ⟨request.takeProfit, hmatches.takeProfit, htarget⟩, ?_⟩
    rw [heq, ← hsymbol, ← hsize, ← hprice, ← hsl, orElse_priceOrNone]
  · rintro ⟨-, hlength, side, hside, kind, hkind, -, hlimits, target, ⟨levels, hlevels, htarget⟩, rfl⟩
    refine ⟨_, ⟨signal.symbol, side, kind, .fin lot, (nonZero signal.entryPrice).map .fin,
      (nonZero signal.stopLoss).map .fin, levels, none⟩, rfl,
      validateOrder_eq_some.mpr ⟨rfl, hlength, hside, hkind, hlot, hbounds.mpr hlimits, hentry, hstop,
        hlevels, rfl⟩, tradeRequest_eq_ok.mpr ⟨rfl, info, rfl, htarget, ?_⟩⟩
    rw [← orElse_priceOrNone]

/-! ### Whole runs -/

/-- An order as a request enqueues it, for a signal of the user and an active account of the user in
tables that the request has read. -/
def Routed (read : SignalTable → AccountTable → Prop) (order : JobOrder) : Prop :=
  ∃ signals accounts, read signals accounts ∧ ∃ (request : LiveRouteRequest) (signal : Signal)
    (account : MT5Account) (id : JobId) (now : Nat),
    ownSignal signals order.userId request.signalId = some signal ∧
    activeAccount accounts order.userId request.accountId = some account ∧
    order = (routedJob id request.lotSize signal account order.userId now).jobOrder

/-- The job is for a signal and an account of its user, and whatever terminal it is sent to, the order
there is the one that the signal asks for. -/
def Follows (signals : SignalTable) (accounts : AccountTable) (job : LiveJob) : Prop :=
  ∃ signal account, ownSignal signals job.userId job.signalId = some signal ∧
    activeAccount accounts job.userId job.accountId = some account ∧
    ∀ parseFloat info, sentRequest parseFloat true (some info) job.payload =
      signalOrder signal job.lotSize info

theorem ownSignal_id {signals : SignalTable} {userId id : Nat} {signal : Signal}
    (h : ownSignal signals userId id = some signal) : signal.id = id :=
  (Table.find?_eq_some.mp (Option.filter_eq_some_iff.mp h).1).2

private theorem activeAccount_id {accounts : AccountTable} {userId id : Nat} {account : MT5Account}
    (h : activeAccount accounts userId id = some account) : account.id = id :=
  (Table.find?_eq_some.mp (Option.filter_eq_some_iff.mp h).1).2

theorem follows_of_routed {read : SignalTable → AccountTable → Prop} {job : LiveJob}
    (h : Routed read job.jobOrder) : ∃ signals accounts, read signals accounts ∧
      Follows signals accounts job := by
  obtain ⟨signals, accounts, hread, request, signal, account, id, now, hsignal, haccount, horder⟩ := h
  refine ⟨signals, accounts, hread, signal, account, ?_, ?_, fun parseFloat info => ?_⟩
  · have hid : job.signalId = signal.id := congrArg JobOrder.signalId horder
    rw [hid, ownSignal_id hsignal]
    exact hsignal
  · have hid : job.accountId = account.id := congrArg JobOrder.accountId horder
    rw [hid, activeAccount_id haccount]
    exact haccount
  · have hpayload : job.payload = _ := congrArg JobOrder.payload horder
    have hlot : job.lotSize = _ := congrArg JobOrder.lotSize horder
    rw [hpayload, hlot]
    exact sentRequest_livePayload parseFloat info signal account _

/-- In every run of requests, workers and cancellations, with crashes and lost commits, every job that
a worker holds is for a signal and an active account of one user, as a request has read them, and the
order that MetaTrader gets for it is the order that this signal asks for: its symbol, side, kind,
prices and first target, with the job's lot size. -/
theorem order_follows_signal (read : SignalTable → AccountTable → Prop) (actions : List Action)
    (s : Queue) (hrun : Queue.run actions = some s)
    (hroutes : ∀ order ∈ enqueued .empty actions, Routed read order) (a : ActorId) (job : LiveJob)
    (hjob : (s.actors a).job? = some job) :
    ∃ signals accounts, read signals accounts ∧ Follows signals accounts job := by
  have hcarries : CarriesOnly (Routed read) s := (carriesOnly_empty _).run hroutes hrun
  exact follows_of_routed (hcarries.actors a job (Actor.carried?_of_job hjob))

/-- A request for half a lot of the signal, and a worker that takes the job. -/
def routedRun : List Action :=
  [.routeCheck 1 7 3 9, .enqueue 1 42 (1 / 2) routedHalfLot.payload 5, .commit 1 .done, .beginTx 2,
    .claimSelect 2 42, .claimUpdate 2 6, .commit 2 .done]

theorem order_follows_signal_of_nearTarget : ∃ s job, Queue.run routedRun = some s ∧
    (s.actors 2).job? = some job ∧ ∃ signals accounts, (signals = ownSignals ∧ accounts = ownAccounts) ∧
      Follows signals accounts job := by
  have hsome : (Queue.run routedRun).isSome = true := rfl
  have hrun : Queue.run routedRun = some ((Queue.run routedRun).get hsome) := (Option.some_get hsome).symm
  refine ⟨_, _, hrun, rfl, order_follows_signal (fun signals accounts => signals = ownSignals ∧
    accounts = ownAccounts) routedRun _ hrun (fun order horder => ?_) 2 _ rfl⟩
  have horder' : order = routedHalfLot.jobOrder := by
    have honly : enqueued .empty routedRun = [routedHalfLot.jobOrder] := rfl
    rw [honly] at horder
    exact List.mem_singleton.mp horder
  exact ⟨_, _, ⟨rfl, rfl⟩, routeHalfLot, nearTarget, demoAccount, 42, 5, horder' ▸ rfl, horder' ▸ rfl,
    horder' ▸ rfl⟩

end SphereFx.Api
