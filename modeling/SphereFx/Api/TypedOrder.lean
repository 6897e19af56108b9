import SphereFx.Api.Extraction
import SphereFx.Api.RoutedOrder

/-!
# Every order is typed by its owner

A column of a signal holds what a creation or an update of its owner has set it to: the updates of
others do not find the signal, and the extractor contributes nothing. With `Follows` this goes on to
the order that MetaTrader gets. The requests of the two tables may interleave in any way, so a routed
signal is one of any table that the signal requests have passed through.
-/

namespace SphereFx.Api

open SphereFx.Live

/-! ### Columns -/

/-- The targets of a request as they are stored. -/
def storedTargets : Option (List (List (String × Json))) → Json
  | none => .null
  | some items => .arr (items.map .obj)

/-- A column of the signals, with the value that each schema sets, if it sets one. -/
structure Column (β : Type) where
  read : Signal → β
  created : SignalCreate → Option β
  updated : SignalUpdate → Option β
  created_eq : ∀ {id now createdBy : Nat} {data : SignalCreate} {row : Signal},
    newSignal id now createdBy data.fields = .ok row → created data = some (read row)
  updated_eq : ∀ {data : SignalUpdate} {old row : Signal},
    assignSignal data old = .ok row → read row = (updated data).getD (read old)

theorem priceColumn_decimal {given column : Option ℚ}
    (h : priceColumn (given.map .decimal) = .ok column) : given = column := by
  cases given <;> exact Except.ok.inj h

private theorem takeProfitColumn_fields {data : SignalCreate} {column : Json}
    (h : takeProfitColumn data.fields.takeProfit = .ok column) :
    storedTargets data.takeProfit = column := by
  unfold SignalCreate.fields at h
  cases htargets : data.takeProfit with
  | none =>
      rw [htargets] at h
      exact Except.ok.inj h
  | some items =>
      rw [htargets] at h
      exact Except.ok.inj h

theorem newSignal_orderType {id now createdBy : Nat} {fields : SignalFields} {row : Signal}
    (h : newSignal id now createdBy fields = .ok row) :
    row.createdBy = createdBy ∧ row.orderType = (textOr (fields.orderType.getD "") none).getD "MARKET" := by
  simp only [newSignal, bind_eq_ok, pure_eq_ok] at h
  obtain ⟨_, -, _, -, _, -, _, -, _, -, rfl⟩ := h
  exact ⟨rfl, rfl⟩

namespace Column

def symbol : Column String where
  read := Signal.symbol
  created := SignalCreate.symbol
  updated data := data.symbol.join
  created_eq h := (newSignal_eq_ok h).2.1
  updated_eq h := by rw [(assignSignal_eq_ok.mp h).2]

def action : Column String where
  read := Signal.action
  created := SignalCreate.action
  updated data := data.action.join
  created_eq h := (newSignal_eq_ok h).2.2.1
  updated_eq h := by rw [(assignSignal_eq_ok.mp h).2]

/-- A creation without an order type stores `MARKET`. -/
def orderType : Column String where
  read := Signal.orderType
  created data := some ((textOr (data.orderType.getD "") none).getD "MARKET")
  updated data := data.orderType.join
  created_eq h := congrArg some (newSignal_orderType h).2.symm
  updated_eq h := by rw [(assignSignal_eq_ok.mp h).2]

def entryPrice : Column (Option ℚ) where
  read := Signal.entryPrice
  created data := some data.entryPrice
  updated := SignalUpdate.entryPrice
  created_eq h := congrArg some (priceColumn_decimal (newSignal_eq_ok h).2.2.2.1)
  updated_eq h := by rw [(assignSignal_eq_ok.mp h).2]

def stopLoss : Column (Option ℚ) where
  read := Signal.stopLoss
  created data := some data.stopLoss
  updated := SignalUpdate.stopLoss
  created_eq h := congrArg some (priceColumn_decimal (newSignal_eq_ok h).2.2.2.2.1)
  updated_eq h := by rw [(assignSignal_eq_ok.mp h).2]

def takeProfit : Column Json where
  read := Signal.takeProfit
  created data := some (storedTargets data.takeProfit)
  updated data := data.takeProfit.map storedTargets
  created_eq h := congrArg some (takeProfitColumn_fields (newSignal_eq_ok h).2.2.2.2.2)
  updated_eq {data old row} h := by
    have hrow : row.takeProfit = targetsUnder data old := by rw [(assignSignal_eq_ok.mp h).2]
    rw [hrow, targetsUnder]
    cases data.takeProfit with
    | none => rfl
    | some targets => cases targets <;> rfl

variable {β : Type}

/-- The request is one of the user and sets the column of the signal to the value. -/
def SetBy (c : Column β) (userId id : Nat) (value : β) (request : SignalRequest) : Prop :=
  request.userId = userId ∧
    match request.call with
    | .create data _ => request.newId = id ∧ c.created data = some value
    | .update other data _ => other = id ∧ c.updated data = some value
    | _ => False

def TypedBy (c : Column β) (requests : List SignalRequest) (userId id : Nat) (value : β) : Prop :=
  ∃ request ∈ requests, c.SetBy userId id value request

/-- The column of every signal is typed by the owner. -/
def Typed (c : Column β) (requests : List SignalRequest) (t : SignalTable) : Prop :=
  ∀ row ∈ t.rows, c.TypedBy requests row.createdBy row.id (c.read row)

end Column

/-! ### Where the rows come from -/

section Steps

variable {format : Json → String} {t : SignalTable} {request : SignalRequest} {row : Signal}

/-- Where a row of the table after a request comes from. -/
inductive Origin (format : Json → String) (t : SignalTable) (request : SignalRequest) (row : Signal) :
    Prop where
  | kept (hrow : row ∈ t.rows)
  | created {data : SignalCreate} {valid : data.Valid} (hcall : request.call = .create data valid)
      (hcheck : checkFields format (extractedFields request.reply data) = .ok ())
      (hnew : newSignal request.newId request.now request.userId
        (extractedFields request.reply data) = .ok row)
  | updated {id : Nat} {data : SignalUpdate} {valid : data.Valid} {old : Signal}
      (hcall : request.call = .update id data valid) (hold : old ∈ t.rows)
      (howner : old.createdBy = request.userId) (hid : old.id = id)
      (hassign : assignSignal data old = .ok row)

private theorem origin_of_create {data : SignalCreate} {valid : data.Valid}
    (hcall : request.call = .create data valid)
    (hrow : row ∈ (Session.teardown request.teardownCommits
      (createSignal format request data (Session.start t))).rows) : Origin format t request row := by
  cases houtcome : (do
      checkFields format (extractedFields request.reply data)
      storeSignal request request.userId (extractedFields request.reply data) (Session.start t)) with
  | error err =>
      simp only [createSignal, houtcome] at hrow
      exact .kept hrow
  | ok stored =>
      obtain ⟨signal, session⟩ := stored
      obtain ⟨_, hcheck, hstore⟩ := bind_eq_ok.mp houtcome
      obtain ⟨hnew, -, -, t', rfl, hwritten⟩ := storeSignal_eq_ok hstore
      simp only [createSignal, houtcome] at hrow
      rcases (Session.written_teardown_self hwritten request.teardownCommits [signal] row).mp hrow with
        rfl | ⟨hold, -⟩
      · exact .created hcall hcheck hnew
      · exact .kept hold

private theorem origin_of_update {id : Nat} {data : SignalUpdate} {valid : data.Valid}
    (hcall : request.call = .update id data valid)
    (hrow : row ∈ (Session.teardown request.teardownCommits
      (updateSignal request id data (Session.start t))).rows) : Origin format t request row := by
  have hstart : (Session.start t).table = t := rfl
  cases hown : ownSignal t request.userId id with
  | none =>
      simp only [updateSignal, hstart, hown] at hrow
      exact .kept hrow
  | some old =>
      obtain ⟨hmem, hid⟩ := ownSignal_eq_some hown
      have howner : old.createdBy = request.userId :=
        of_decide_eq_true (Option.filter_eq_some_iff.mp hown).2
      cases hassign : assignSignal data old with
      | error err =>
          simp only [updateSignal, hstart, hown, hassign] at hrow
          exact .kept hrow
      | ok signal =>
          cases hcommits : request.commits with
          | false =>
              simp only [updateSignal, hstart, hown, hassign, hcommits] at hrow
              exact .kept hrow
          | true =>
              simp only [updateSignal, hstart, hown, hassign, hcommits, Session.commit_change hid] at hrow
              have hsame : signal.id = old.id := by rw [(assignSignal_eq_ok.mp hassign).2]
              have hkey : signal.id ∈ t.rows.map Signal.id := hsame ▸ List.mem_map_of_mem hmem
              rcases (Session.written_teardown_self (Table.written_overwrite hkey)
                request.teardownCommits [signal] row).mp hrow with rfl | ⟨hold, -⟩
              · exact .updated hcall hmem howner hid hassign
              · exact .kept hold

private theorem mem_of_delete {id : Nat} (hrow : row ∈ (Session.teardown request.teardownCommits
    (deleteSignal request id (Session.start t))).rows) : row ∈ t.rows := by
  have hstart : (Session.start t).table = t := rfl
  cases hown : ownSignal t request.userId id with
  | none =>
      simp only [deleteSignal, hstart, hown] at hrow
      exact hrow
  | some signal =>
      cases hcommit : (((Session.start t).load signal).remove id).commit request.commits with
      | none =>
          simp only [deleteSignal, hstart, hown, hcommit] at hrow
          exact hrow
      | some session =>
          simp only [deleteSignal, hstart, hown, hcommit] at hrow
          have hcommits : request.commits = true := by
            by_contra hrefused
            rw [Session.commit, if_neg hrefused] at hcommit
            cases hcommit
          rw [hcommits] at hcommit
          exact Session.mem_of_mem_teardown_remove (ownSignal_eq_some hown).1 request.teardownCommits
            (Except.ok [] : Except ApiError (List Signal)) hcommit hrow

private theorem origin_of_step (hrow : row ∈ (SignalTable.step format t request).rows) :
    Origin format t request row := by
  unfold SignalTable.step handleSignal at hrow
  cases hcall : request.call with
  | create data valid =>
      rw [hcall] at hrow
      exact origin_of_create hcall hrow
  | update id data valid =>
      rw [hcall] at hrow
      exact origin_of_update hcall hrow
  | delete id =>
      rw [hcall] at hrow
      exact .kept (mem_of_delete hrow)
  | webhook hook =>
      rw [hcall] at hrow
      obtain ⟨result, hresult⟩ := webhook_table t request hook
      simp only [hresult] at hrow
      rw [Session.start, Session.teardown_read (List.forall_mem_nil _)] at hrow
      exact .kept hrow

/-! ### Steps and runs -/

variable {β : Type} {c : Column β} {requests : List SignalRequest}

theorem Column.Typed.step (h : c.Typed requests t) (hrequest : request ∈ requests)
    (hserved : Served request) : c.Typed requests (SignalTable.step format t request) := by
  intro row hrow
  cases origin_of_step hrow with
  | kept hold => exact h row hold
  | created hcall hcheck hnew =>
      rw [fields_of_checked hcall hserved hcheck] at hnew
      refine ⟨request, hrequest, (newSignal_orderType hnew).1.symm, ?_⟩
      rw [hcall]
      exact ⟨(newSignal_eq_ok hnew).1.symm, c.created_eq hnew⟩
  | @updated id data valid old hcall hold howner hid hassign =>
      have hrowOwner : row.createdBy = old.createdBy := by rw [(assignSignal_eq_ok.mp hassign).2]
      have hrowId : row.id = old.id := by rw [(assignSignal_eq_ok.mp hassign).2]
      have hvalue := c.updated_eq hassign
      rw [hrowOwner, hrowId]
      cases hset : c.updated data with
      | none =>
          rw [hset, Option.getD_none] at hvalue
          rw [hvalue]
          exact h old hold
      | some value =>
          rw [hset, Option.getD_some] at hvalue
          refine ⟨request, hrequest, howner.symm, ?_⟩
          rw [hcall]
          exact ⟨hid.symm, hset.trans (congrArg some hvalue.symm)⟩

theorem Column.typed_of_visited (c : Column β) (hserved : ∀ request ∈ requests, Served request)
    (ht : t ∈ visited (SignalTable.step format) Table.empty requests) : c.Typed requests t := by
  have hempty : c.Typed requests Table.empty := fun row hrow => nomatch hrow
  refine @visited_of_along _ _ (SignalTable.step format)
    (fun _ request => request ∈ requests ∧ Served request) (c.Typed requests)
    (fun h hrequest => h.step hrequest.1 hrequest.2) _ requests hempty ?_ t ht
  exact along_of_forall (fun request hrequest _ => ⟨hrequest, hserved request hrequest⟩) Table.empty

end Steps

/-! ### The order -/

/-- Every field of the order is what the user has typed for the signal; without an entry price it is
the quote of the terminal. -/
structure TypedOrder (requests : List SignalRequest) (userId id : Nat) (info : SymbolInfo)
    (trade : TradeRequest) : Prop where
  symbol : Column.symbol.TypedBy requests userId id trade.symbol
  action : Column.action.TypedBy requests userId id trade.type.side.text
  orderType : ∃ text, Column.orderType.TypedBy requests userId id text ∧
    OrderType.ofString text = some trade.type.kind
  price : ∃ entry, Column.entryPrice.TypedBy requests userId id entry ∧
    trade.price = ((nonZero entry).map .fin).getD (if trade.type.side = .buy then info.ask else info.bid)
  stopLoss : ∃ stop, Column.stopLoss.TypedBy requests userId id stop ∧
    trade.sl = (nonZero stop).map .fin
  takeProfit : ∃ targets, Column.takeProfit.TypedBy requests userId id targets ∧
    signalTarget targets = some trade.tp

private theorem typedOrder_of_signal {requests : List SignalRequest} {t : SignalTable} {signal : Signal}
    {lot : ℚ} {info : SymbolInfo} {trade : TradeRequest}
    (htyped : ∀ {β : Type} (c : Column β), c.Typed requests t) (hsignal : signal ∈ t.rows)
    (htrade : signalOrder signal lot info = some trade) :
    TypedOrder requests signal.createdBy signal.id info trade := by
  simp only [signalOrder, Option.bind_eq_bind, Option.bind_eq_some_iff, Option.guard_eq_some',
    Option.pure_def, Option.some.injEq] at htrade
  obtain ⟨-, -, side, hside, kind, hkind, -, -, target, htarget, rfl⟩ := htrade
  exact
    { symbol := htyped Column.symbol signal hsignal
      action := Side.ofString_eq_some hside ▸ htyped Column.action signal hsignal
      orderType := ⟨_, htyped Column.orderType signal hsignal, hkind⟩
      price := ⟨_, htyped Column.entryPrice signal hsignal, rfl⟩
      stopLoss := ⟨_, htyped Column.stopLoss signal hsignal, rfl⟩
      takeProfit := ⟨_, htyped Column.takeProfit signal hsignal, htarget⟩ }

/-- In every run of signal requests, and of requests, workers and cancellations around the queue, every
order that MetaTrader gets is typed by the user whose job it is: nobody else and no extracted text
contributes a field of it. -/
theorem order_typed_by_owner (format : Json → String) (requests : List SignalRequest)
    (hserved : ∀ request ∈ requests, Served request) (actions : List Action) (s : Queue)
    (hrun : Queue.run actions = some s)
    (hroutes : ∀ order ∈ enqueued .empty actions,
      Routed (fun t _ => t ∈ visited (SignalTable.step format) Table.empty requests) order)
    (a : ActorId) (job : LiveJob) (hjob : (s.actors a).job? = some job)
    (parseFloat : String → Option F64) (info : SymbolInfo) (trade : TradeRequest)
    (hsent : sentRequest parseFloat true (some info) job.payload = some trade) :
    TypedOrder requests job.userId job.signalId info trade := by
  have hcarries := (carriesOnly_empty _).run hroutes hrun
  obtain ⟨t, accounts, ht, signal, account, hsignal, -, horder⟩ :=
    follows_of_routed (hcarries.actors a job (Actor.carried?_of_job hjob))
  have howner : signal.createdBy = job.userId :=
    of_decide_eq_true (Option.filter_eq_some_iff.mp hsignal).2
  rw [horder parseFloat info] at hsent
  rw [← howner, ← ownSignal_id hsignal]
  exact typedOrder_of_signal (fun c => c.typed_of_visited hserved ht) (ownSignal_eq_some hsignal).1 hsent

/-- The signal that `createBuy` stores, and a worker that takes the job for it. -/
def createdBuy : Signal where
  id := 1
  rawText := some "EURUSD"
  symbol := "EURUSD"
  action := "BUY"
  orderType := "MARKET"
  entryPrice := some (11 / 10)
  stopLoss := some (109 / 100)
  takeProfit := .null
  confidence := 0
  status := "PENDING"
  channelId := none
  createdBy := 1
  createdAt := 0

def createdTables : SignalTable := [createBuy].foldl (SignalTable.step fun _ => "") Table.empty

def traderAccount : MT5Account := ⟨3, 1, "", "", "Demo", true, some 100000, none, none⟩

def createdJob : LiveJob := routedJob 42 (some (1 / 2)) createdBuy traderAccount 1 5

def createdRun : List Action :=
  [.routeCheck 1 1 3 1, .enqueue 1 42 (1 / 2) createdJob.payload 5, .commit 1 .done, .beginTx 2,
    .claimSelect 2 42, .claimUpdate 2 6, .commit 2 .done]

theorem order_typed_by_owner_of_createdBuy : ∃ trade,
    sentRequest (fun _ => none) true (some quote) createdJob.payload = some trade ∧
      TypedOrder [createBuy] 1 1 quote trade := by
  have hsome : (Queue.run createdRun).isSome = true := rfl
  have hrun : Queue.run createdRun = some ((Queue.run createdRun).get hsome) :=
    (Option.some_get hsome).symm
  have hsent : (sentRequest (fun _ => none) true (some quote) createdJob.payload).isSome = true := by
    with_unfolding_all decide
  obtain ⟨trade, htrade⟩ := Option.isSome_iff_exists.mp hsent
  have hserved : ∀ request ∈ [createBuy], Served request := by
    intro request hrequest
    rw [List.mem_singleton.mp hrequest]
    exact fun response hresponse => nomatch hresponse
  have hsignal : ownSignal createdTables 1 1 = some createdBuy := by with_unfolding_all rfl
  refine ⟨trade, htrade, order_typed_by_owner (fun _ => "") [createBuy] hserved createdRun _ hrun
    (fun order horder => ?_) 2 (createdJob.claimedCopy 6) rfl (fun _ => none) quote trade htrade⟩
  have horder' : order = createdJob.jobOrder := by
    have honly : enqueued .empty createdRun = [createdJob.jobOrder] := rfl
    rw [honly] at horder
    exact List.mem_singleton.mp horder
  rw [horder']
  exact ⟨createdTables, ⟨[traderAccount], List.nodup_singleton _⟩,
    foldl_mem_visited (SignalTable.step fun _ => "") Table.empty [createBuy],
    { routeHalfLot with signalId := 1 }, createdBuy, traderAccount, 42, 5, hsignal, rfl, rfl⟩

end SphereFx.Api
