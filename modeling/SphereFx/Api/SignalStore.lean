import SphereFx.Api.Signals

/-!
# Which requests store an inconsistent signal

Only `create_signal` runs the check, and not on an entry price of zero. An update is stored as it
comes. The webhook stores nothing: its targets are protobuf messages, which a JSON column refuses.
-/

namespace SphereFx.Api

open Table (Written)
open Extractor (ExtractResponse)

/-! ### The invariant and the requests that break it -/

section Conditions

variable (format : Json → String)

/-- `validate_signal_consistency` on values of columns. -/
def Passes (action : String) (entry : ℚ) (stopLoss : Option ℚ) (takeProfit : Json) : Prop :=
  ∃ tp, TakeProfit.ofColumn takeProfit = some tp ∧
    validateSignalConsistency format action (.decimal entry) (stopLoss.map .decimal) tp = .ok []

/-- A signal with an action and an entry price passes the check. -/
def Consistent (signal : Signal) : Prop :=
  signal.action ≠ "" → ∀ entry ∈ signal.entryPrice,
    Passes format signal.action entry signal.stopLoss signal.takeProfit

def StoreConsistent (table : SignalTable) : Prop := ∀ signal ∈ table.rows, Consistent format signal

/-- A creation with an entry price of zero that is stored. -/
structure CreatesZeroEntry (table : SignalTable) (request : SignalRequest) (fields : SignalFields) :
    Prop where
  commits : request.commits = true
  fresh : request.newId ∉ table.rows.map Signal.id
  symbol : fields.symbol ≠ none
  action : ∃ action, fields.action = some action ∧ action ≠ ""
  entryPrice : fields.entryPrice = some (.decimal 0)
  stopLoss : ∃ stopLoss, priceColumn fields.stopLoss = .ok stopLoss
  takeProfit : ∃ takeProfit, takeProfitColumn fields.takeProfit = .ok takeProfit

def SignalUpdate.NoNulls (data : SignalUpdate) : Prop :=
  data.symbol ≠ some none ∧ data.action ≠ some none ∧ data.orderType ≠ some none ∧
    data.status ≠ some none ∧ data.confidence ≠ some none

def targetsUnder (data : SignalUpdate) (signal : Signal) : Json :=
  match data.takeProfit with
  | none => signal.takeProfit
  | some none => .null
  | some (some items) => .arr (items.map .obj)

/-- An update that is stored although the values it sets and those it leaves fail the check. -/
structure UpdatesUnchecked (table : SignalTable) (request : SignalRequest) (data : SignalUpdate)
    (signal : Signal) (entry : ℚ) : Prop where
  commits : request.commits = true
  noNulls : data.NoNulls
  action : data.action.join.getD signal.action ≠ ""
  entryPrice : data.entryPrice.getD signal.entryPrice = some entry
  fails : ¬ Passes format (data.action.join.getD signal.action) entry
    (data.stopLoss.getD signal.stopLoss) (targetsUnder data signal)

def StoresUnchecked (table : SignalTable) (request : SignalRequest) : Prop :=
  match request.call with
  | .create data _ => CreatesZeroEntry table request (extractedFields request.reply data)
  | .update id data _ => ∃ signal entry, ownSignal table request.userId id = some signal ∧
      UpdatesUnchecked format table request data signal entry
  | _ => False

end Conditions

variable {format : Json → String}

/-! ### What the check says about the values it was run on -/

theorem validatePrice_eq_ok_true {price : Price} (h : validatePrice (some price) = .ok true) :
    ∃ q, price = .decimal q := by
  cases price with
  | decimal q => exact ⟨q, rfl⟩
  | float x =>
      exfalso
      by_cases hpos : (Price.float x).value > .fin 0
      · simp [validatePrice, hpos] at h
      · simp [validatePrice, hpos] at h

theorem decimal_of_validate {action : String} {entry : Price} {stopLoss : Option Price}
    {takeProfit : TakeProfit}
    (h : validateSignalConsistency format action entry stopLoss takeProfit = .ok []) :
    (∃ q, entry = .decimal q) ∧ ∃ stop : Option ℚ, stopLoss = stop.map .decimal := by
  simp only [validateSignalConsistency, bind_eq_ok, pure_eq_ok, List.append_eq_nil_iff] at h
  obtain ⟨entryOk, hentry, stopOk, hstop, _, _, _, _, _, _, ⟨⟨⟨hentryOk, hstopOk⟩, _⟩, _⟩, _⟩ := h
  cases entryOk with
  | false => cases hentryOk
  | true =>
      cases stopOk with
      | false => cases hstopOk
      | true =>
          refine ⟨validatePrice_eq_ok_true hentry, ?_⟩
          cases stopLoss with
          | none => exact ⟨none, rfl⟩
          | some price =>
              obtain ⟨q, rfl⟩ := validatePrice_eq_ok_true hstop
              exact ⟨some q, rfl⟩

private theorem ofColumn_takeProfitColumn {takeProfit : TakeProfit} {column : Json}
    (h : takeProfitColumn takeProfit = .ok column) : TakeProfit.ofColumn column = some takeProfit := by
  cases takeProfit with
  | none =>
      cases h
      rfl
  | messages levels => cases h
  | dicts items =>
      cases h
      have hobjects : (items.map Json.obj).mapM Json.object? = some items := by
        induction items with
        | nil => rfl
        | cons item rest ih =>
            rw [List.map_cons, List.mapM_cons, ih]
            rfl
      simp only [TakeProfit.ofColumn, hobjects, Option.map_some]

def targetItems : Json → Option (List (List (String × Json)))
  | .null => some []
  | .arr items => items.mapM Json.object?
  | _ => none

theorem passes_iff {action : String} {entry : ℚ} {stopLoss : Option ℚ} {takeProfit : Json} :
    Passes format action entry stopLoss takeProfit ↔
      ∃ items, targetItems takeProfit = some items ∧ SignalOk action entry stopLoss items := by
  have hnone : validateSignalConsistency format action (.decimal entry) (stopLoss.map .decimal)
      .none = validateSignalConsistency format action (.decimal entry) (stopLoss.map .decimal)
        (.dicts []) := rfl
  unfold Passes
  constructor
  · rintro ⟨tp, hcolumn, h⟩
    cases takeProfit with
    | null =>
        obtain rfl := Option.some.inj hcolumn
        rw [hnone] at h
        exact ⟨[], rfl, validateSignalConsistency_eq_ok_nil.mp h⟩
    | arr items =>
        obtain ⟨dicts, hdicts, rfl⟩ := Option.map_eq_some_iff.mp hcolumn
        exact ⟨dicts, hdicts, validateSignalConsistency_eq_ok_nil.mp h⟩
    | bool | int | dec | str | obj => cases hcolumn
  · rintro ⟨items, hitems, h⟩
    cases takeProfit with
    | null =>
        obtain rfl := Option.some.inj hitems
        refine ⟨.none, rfl, ?_⟩
        rw [hnone]
        exact validateSignalConsistency_eq_ok_nil.mpr h
    | arr dicts =>
        exact ⟨.dicts items, Option.map_eq_some_iff.mpr ⟨items, hitems, rfl⟩,
          validateSignalConsistency_eq_ok_nil.mpr h⟩
    | bool | int | dec | str | obj => cases hitems

theorem not_passes_zero (action : String) (stopLoss : Option ℚ) (takeProfit : Json) :
    ¬ Passes format action 0 stopLoss takeProfit := by
  intro h
  obtain ⟨items, -, hok⟩ := passes_iff.mp h
  exact lt_irrefl 0 hok.entry_pos

/-! ### What each request does -/

theorem ownSignal_eq_some {t : SignalTable} {userId id : Nat} {signal : Signal}
    (h : ownSignal t userId id = some signal) : signal ∈ t.rows ∧ signal.id = id := by
  obtain ⟨hfind, -⟩ := Option.filter_eq_some_iff.mp h
  exact Table.find?_eq_some.mp hfind

theorem storeSignal_eq_ok {t : SignalTable} {request : SignalRequest} {createdBy : Nat}
    {fields : SignalFields} {signal : Signal} {session : SignalSession}
    (h : storeSignal request createdBy fields (Session.start t) = .ok (signal, session)) :
    newSignal request.newId request.now createdBy fields = .ok signal ∧ request.commits = true ∧
      request.newId ∉ t.rows.map Signal.id ∧
      ∃ t', session = ⟨t', [signal], [], []⟩ ∧ Written t t' signal := by
  rw [storeSignal, bind_eq_ok] at h
  obtain ⟨row, hrow, h⟩ := h
  cases hcommits : request.commits with
  | false =>
      rw [hcommits] at h
      cases h
  | true =>
      rw [hcommits] at h
      cases hcommit : ((Session.start t).add row).commit true with
      | none =>
          rw [hcommit] at h
          cases h
      | some session' =>
          rw [hcommit] at h
          cases h
          obtain ⟨hfresh, hwritten⟩ := Session.commit_add hcommit
          have hid : signal.id = request.newId := by
            simp only [newSignal, bind_eq_ok, pure_eq_ok] at hrow
            obtain ⟨_, -, _, -, _, -, _, -, _, -, rfl⟩ := hrow
            rfl
          exact ⟨hrow, rfl, hid ▸ hfresh, hwritten⟩

theorem webhook_table (t : SignalTable) (request : SignalRequest) (hook : WebhookCall) :
    ∃ result, telegramWebhook request hook (Session.start t) = (result, Session.start t) := by
  have hrefused : ∀ (response : ExtractResponse) (rawText : String), ∃ err,
      storeSignal request systemUser (parsedFields response.parsedSignal rawText) (Session.start t) =
        .error err := by
    intro response rawText
    cases hstore : storeSignal request systemUser (parsedFields response.parsedSignal rawText)
        (Session.start t) with
    | error err => exact ⟨err, rfl⟩
    | ok stored =>
        exfalso
        obtain ⟨hnew, -⟩ := storeSignal_eq_ok hstore
        simp only [newSignal, bind_eq_ok] at hnew
        obtain ⟨_, -, _, -, _, -, _, -, _, htargets, -⟩ := hnew
        cases htargets
  unfold telegramWebhook
  split
  · exact ⟨_, rfl⟩
  · split
    · exact ⟨_, rfl⟩
    · rename_i rawText _ _ response _
      obtain ⟨err, herr⟩ := hrefused response rawText
      rw [herr]
      exact ⟨_, rfl⟩
  · exact ⟨_, rfl⟩
  · exact ⟨_, rfl⟩

theorem newSignal_eq_ok {id now createdBy : Nat} {fields : SignalFields} {signal : Signal}
    (h : newSignal id now createdBy fields = .ok signal) :
    signal.id = id ∧ fields.symbol = some signal.symbol ∧ fields.action = some signal.action ∧
      priceColumn fields.entryPrice = .ok signal.entryPrice ∧
      priceColumn fields.stopLoss = .ok signal.stopLoss ∧
      takeProfitColumn fields.takeProfit = .ok signal.takeProfit := by
  have hrequired : ∀ {field : Option String} {text : String},
      required field = .ok text → field = some text := by
    intro field text h
    cases field with
    | none => cases h
    | some given => exact congrArg some (Except.ok.inj h)
  simp only [newSignal, bind_eq_ok, pure_eq_ok] at h
  obtain ⟨symbol, hsymbol, action, haction, entry, hentry, stop, hstop, targets, htargets, rfl⟩ := h
  exact ⟨rfl, hrequired hsymbol, hrequired haction, hentry, hstop, htargets⟩

theorem storeSignal_of_newSignal {t : SignalTable} {request : SignalRequest} {createdBy : Nat}
    {fields : SignalFields} {signal : Signal}
    (hnew : newSignal request.newId request.now createdBy fields = .ok signal)
    (hcommits : request.commits = true) (hfresh : request.newId ∉ t.rows.map Signal.id) :
    ∃ t' : SignalTable, t'.rows = signal :: t.rows ∧
      storeSignal request createdBy fields (Session.start t) = .ok (signal, ⟨t', [signal], [], []⟩) := by
  have hid : signal.id ∉ t.rows.map Signal.id := (newSignal_eq_ok hnew).1 ▸ hfresh
  obtain ⟨t', hrows, hcommit⟩ : ∃ t' : SignalTable, t'.rows = signal :: t.rows ∧
      ((Session.start t).add signal).commit true = some ⟨t', [signal], [], []⟩ :=
    ⟨⟨signal :: t.rows, List.nodup_cons.mpr ⟨hid, t.unique⟩⟩, rfl,
      Session.commit_add_eq_some.mpr ⟨hid, _, rfl, rfl⟩⟩
  refine ⟨t', hrows, ?_⟩
  rw [storeSignal, bind_eq_ok]
  refine ⟨signal, hnew, ?_⟩
  rw [hcommits, hcommit]
  rfl

/-- Whatever the extractor answers, a price of zero in the fields is the request's own. -/
theorem entryPrice_of_not_truthy {reply : Option ExtractResponse} {data : SignalCreate} {price : Price}
    (hprice : (extractedFields reply data).entryPrice = some price) (htruthy : price.truthy = false) :
    price = .decimal 0 := by
  have hvalue : price.value = .fin 0 := by
    simpa only [Price.truthy, decide_eq_false_iff_not, ne_eq, not_not] using htruthy
  have hgiven : data.entryPrice.map .decimal = some price → price = .decimal 0 := by
    intro hmap
    obtain ⟨q, -, rfl⟩ := Option.map_eq_some_iff.mp hmap
    exact congrArg Price.decimal (F64.fin.inj hvalue)
  cases reply with
  | none => exact hgiven hprice
  | some response =>
      simp only [extractedFields, SignalFields.override, floatOr] at hprice
      split at hprice
      · rename_i hfloat
        obtain rfl := Option.some.inj hprice
        rw [htruthy] at hfloat
        cases hfloat
      · exact hgiven hprice

theorem consistent_of_created {t : SignalTable} {request : SignalRequest} {data : SignalCreate}
    {signal : Signal} {session : SignalSession}
    (hcheck : checkFields format (extractedFields request.reply data) = .ok ())
    (hstore : storeSignal request request.userId (extractedFields request.reply data)
      (Session.start t) = .ok (signal, session))
    (hzero : ¬ CreatesZeroEntry t request (extractedFields request.reply data)) :
    Consistent format signal := by
  obtain ⟨hnew, hcommits, hfresh, -⟩ := storeSignal_eq_ok hstore
  obtain ⟨-, hsymbol, haction, hentryColumn, hstopColumn, htargets⟩ := newSignal_eq_ok hnew
  intro hnonempty entry hentry
  rw [Option.mem_def.mp hentry] at hentryColumn
  cases hprice : (extractedFields request.reply data).entryPrice with
  | none =>
      rw [hprice] at hentryColumn
      cases hentryColumn
  | some price =>
      by_cases htruthy : price.truthy = true
      · rw [checkFields, haction, hprice] at hcheck
        simp only [if_pos (And.intro hnonempty htruthy), bind_eq_ok, refuseIf_eq_ok, not_not] at hcheck
        obtain ⟨errors, hvalidate, rfl⟩ := hcheck
        obtain ⟨⟨q, rfl⟩, stop, hstop⟩ := decimal_of_validate hvalidate
        rw [hprice] at hentryColumn
        obtain rfl := Option.some.inj (Except.ok.inj hentryColumn)
        have hstop' : signal.stopLoss = stop := by
          rw [hstop] at hstopColumn
          cases stop with
          | none => exact (Except.ok.inj hstopColumn).symm
          | some s => exact (Except.ok.inj hstopColumn).symm
        refine ⟨_, ofColumn_takeProfitColumn htargets, ?_⟩
        rw [hstop', ← hstop]
        exact hvalidate
      · exfalso
        apply hzero
        exact
          { commits := hcommits
            fresh := hfresh
            symbol := by
              rw [hsymbol]
              exact Option.some_ne_none _
            action := ⟨signal.action, haction, hnonempty⟩
            entryPrice := by
              rw [hprice, entryPrice_of_not_truthy hprice (Bool.eq_false_iff.mpr htruthy)]
            stopLoss := ⟨_, hstopColumn⟩
            takeProfit := ⟨_, htargets⟩ }

theorem created_zeroEntry {t : SignalTable} {request : SignalRequest} {fields : SignalFields}
    (h : CreatesZeroEntry t request fields) :
    checkFields format fields = .ok () ∧ ∃ signal session,
      storeSignal request request.userId fields (Session.start t) = .ok (signal, session) ∧
        ¬ Consistent format signal := by
  obtain ⟨action, haction, hnonempty⟩ := h.action
  obtain ⟨symbol, hsymbol⟩ := Option.ne_none_iff_exists'.mp h.symbol
  obtain ⟨stop, hstop⟩ := h.stopLoss
  obtain ⟨targets, htargets⟩ := h.takeProfit
  constructor
  · have hfalsy : (Price.decimal 0).truthy = false := rfl
    rw [checkFields, haction, h.entryPrice]
    simp only [hfalsy, Bool.false_eq_true, and_false, if_false]
  · have hzero : priceColumn fields.entryPrice = .ok (some 0) := by
      rw [h.entryPrice]
      rfl
    obtain ⟨signal, hnew⟩ : ∃ signal,
        newSignal request.newId request.now request.userId fields = .ok signal := by
      simp only [newSignal, hsymbol, haction, hzero, hstop, htargets, required]
      exact ⟨_, rfl⟩
    obtain ⟨-, -, haction', hentry, -, -⟩ := newSignal_eq_ok hnew
    rw [haction] at haction'
    rw [hzero] at hentry
    obtain ⟨t', -, hstore⟩ := storeSignal_of_newSignal hnew h.commits h.fresh
    refine ⟨signal, _, hstore, fun hconsistent => ?_⟩
    have hentry' : signal.entryPrice = some 0 := (Except.ok.inj hentry).symm
    refine not_passes_zero _ _ _ (hconsistent ?_ 0 hentry')
    exact Option.some.inj haction' ▸ hnonempty

theorem assignSignal_eq_ok {data : SignalUpdate} {signal signal' : Signal} :
    assignSignal data signal = .ok signal' ↔ data.NoNulls ∧ signal' = { signal with
      rawText := data.rawText.getD signal.rawText
      symbol := data.symbol.join.getD signal.symbol
      action := data.action.join.getD signal.action
      orderType := data.orderType.join.getD signal.orderType
      entryPrice := data.entryPrice.getD signal.entryPrice
      stopLoss := data.stopLoss.getD signal.stopLoss
      takeProfit := targetsUnder data signal
      channelId := data.channelId.getD signal.channelId
      status := data.status.join.getD signal.status
      confidence := data.confidence.join.getD signal.confidence } := by
  simp only [assignSignal, bind_eq_ok, pure_eq_ok, notNull_eq_ok, SignalUpdate.NoNulls, targetsUnder]
  constructor
  · rintro ⟨_, ⟨hsymbol, rfl⟩, _, ⟨haction, rfl⟩, _, ⟨horderType, rfl⟩, _, ⟨hstatus, rfl⟩,
      _, ⟨hconfidence, rfl⟩, rfl⟩
    exact ⟨⟨hsymbol, haction, horderType, hstatus, hconfidence⟩, rfl⟩
  · rintro ⟨⟨hsymbol, haction, horderType, hstatus, hconfidence⟩, rfl⟩
    exact ⟨_, ⟨hsymbol, rfl⟩, _, ⟨haction, rfl⟩, _, ⟨horderType, rfl⟩, _, ⟨hstatus, rfl⟩,
      _, ⟨hconfidence, rfl⟩, rfl⟩

private theorem consistent_of_assigned {t : SignalTable} {request : SignalRequest} {data : SignalUpdate}
    {signal signal' : Signal} (hcommits : request.commits = true)
    (hassign : assignSignal data signal = .ok signal') :
    Consistent format signal' ↔ ¬ ∃ entry, UpdatesUnchecked format t request data signal entry := by
  obtain ⟨hnulls, rfl⟩ := assignSignal_eq_ok.mp hassign
  constructor
  · rintro hconsistent ⟨entry, hbad⟩
    exact hbad.fails (hconsistent hbad.action entry hbad.entryPrice)
  · intro h haction entry hentry
    by_contra hfails
    exact h ⟨entry, hcommits, hnulls, haction, hentry, hfails⟩

/-! ### Steps and runs -/

/-- A request that stores nothing adds no row; one that stores a signal stores one, which is
inconsistent exactly under the conditions above. -/
def StepSpec (format : Json → String) (t : SignalTable) (request : SignalRequest)
    (t' : SignalTable) : Prop :=
  ((∀ row ∈ t'.rows, row ∈ t.rows) ∧ ¬ StoresUnchecked format t request) ∨
    ∃ signal, Written t t' signal ∧ (Consistent format signal ↔ ¬ StoresUnchecked format t request)

private theorem createSignal_spec (t : SignalTable) (request : SignalRequest) {data : SignalCreate}
    {valid : data.Valid} (hcall : request.call = .create data valid) :
    StepSpec format t request (Session.teardown request.teardownCommits
      (createSignal format request data (Session.start t))) := by
  have hbreaks : StoresUnchecked format t request ↔
      CreatesZeroEntry t request (extractedFields request.reply data) := by
    rw [StoresUnchecked, hcall]
  unfold StepSpec
  rw [hbreaks]
  cases houtcome : (do
      checkFields format (extractedFields request.reply data)
      storeSignal request request.userId (extractedFields request.reply data) (Session.start t)) with
  | error err =>
      left
      simp only [createSignal, houtcome]
      refine ⟨fun row hrow => hrow, fun hzero => ?_⟩
      obtain ⟨hcheck, signal, session, hstore, -⟩ := created_zeroEntry hzero
      rw [hcheck] at houtcome
      have hok : (Except.ok (signal, session) : Except ApiError (Signal × SignalSession)) =
          .error err := hstore.symm.trans houtcome
      cases hok
  | ok stored =>
      obtain ⟨signal, session⟩ := stored
      obtain ⟨_, hcheck, hstore⟩ := bind_eq_ok.mp houtcome
      obtain ⟨-, -, -, t', rfl, hwritten⟩ := storeSignal_eq_ok hstore
      right
      simp only [createSignal, houtcome]
      refine ⟨signal, ?_, ?_⟩
      · exact Session.written_teardown_self hwritten request.teardownCommits [signal]
      · constructor
        · intro hconsistent hzero
          obtain ⟨-, signal', session', hstore', hbad⟩ := created_zeroEntry hzero
          rw [hstore] at hstore'
          cases hstore'
          exact hbad hconsistent
        · exact consistent_of_created hcheck hstore

private theorem updateSignal_spec (t : SignalTable) (request : SignalRequest) {id : Nat}
    {data : SignalUpdate} {valid : data.Valid} (hcall : request.call = .update id data valid) :
    StepSpec format t request (Session.teardown request.teardownCommits
      (updateSignal request id data (Session.start t))) := by
  have hbreaks : StoresUnchecked format t request ↔ ∃ signal entry,
      ownSignal t request.userId id = some signal ∧
        UpdatesUnchecked format t request data signal entry := by
    rw [StoresUnchecked, hcall]
  unfold StepSpec
  rw [hbreaks]
  have hstart : (Session.start t).table = t := rfl
  cases hown : ownSignal t request.userId id with
  | none =>
      left
      simp only [updateSignal, hstart, hown]
      refine ⟨fun row hrow => hrow, ?_⟩
      rintro ⟨signal, entry, hsignal, -⟩
      cases hsignal
  | some signal =>
      obtain ⟨hmem, hid⟩ := ownSignal_eq_some hown
      have hunchecked : (∃ signal' entry, some signal = some signal' ∧
          UpdatesUnchecked format t request data signal' entry) ↔
          ∃ entry, UpdatesUnchecked format t request data signal entry := by
        constructor
        · rintro ⟨signal', entry, hsignal, hbad⟩
          obtain rfl := Option.some.inj hsignal
          exact ⟨entry, hbad⟩
        · rintro ⟨entry, hbad⟩
          exact ⟨signal, entry, rfl, hbad⟩
      rw [hunchecked]
      cases hassign : assignSignal data signal with
      | error err =>
          left
          simp only [updateSignal, hstart, hown, hassign]
          refine ⟨fun row hrow => hrow, ?_⟩
          rintro ⟨entry, hbad⟩
          rw [assignSignal_eq_ok.mpr ⟨hbad.noNulls, rfl⟩] at hassign
          cases hassign
      | ok signal' =>
          cases hcommits : request.commits with
          | false =>
              left
              simp only [updateSignal, hstart, hown, hassign, hcommits]
              refine ⟨fun row hrow => hrow, ?_⟩
              rintro ⟨entry, hbad⟩
              have htrue := hbad.commits
              rw [hcommits] at htrue
              cases htrue
          | true =>
              right
              have hid' : signal'.id = signal.id := by
                rw [(assignSignal_eq_ok.mp hassign).2]
              have hwritten : Written t (t.overwrite [signal']) signal' := by
                apply Table.written_overwrite
                rw [hid']
                exact List.mem_map_of_mem hmem
              refine ⟨signal', ?_, consistent_of_assigned hcommits hassign⟩
              simp only [updateSignal, hstart, hown, hassign, hcommits, Session.commit_change hid]
              exact Session.written_teardown_self hwritten request.teardownCommits [signal']

private theorem deleteSignal_spec (t : SignalTable) (request : SignalRequest) {id : Nat}
    (hcall : request.call = .delete id) :
    StepSpec format t request (Session.teardown request.teardownCommits
      (deleteSignal request id (Session.start t))) := by
  have hbreaks : ¬ StoresUnchecked format t request := by
    rw [StoresUnchecked, hcall]
    exact fun h => h
  refine Or.inl ⟨fun row hrow => ?_, hbreaks⟩
  have hstart : (Session.start t).table = t := rfl
  cases hown : ownSignal t request.userId id with
  | none =>
      simp only [deleteSignal, hstart, hown] at hrow
      exact hrow
  | some signal =>
      cases hcommits : request.commits with
      | false =>
          simp only [deleteSignal, hstart, hown, hcommits] at hrow
          exact hrow
      | true =>
          simp only [deleteSignal, hstart, hown, hcommits] at hrow
          exact Session.mem_of_mem_teardown_remove (ownSignal_eq_some hown).1 request.teardownCommits
            (Except.ok [] : Except ApiError (List Signal)) rfl hrow

theorem step_spec (t : SignalTable) (request : SignalRequest) :
    StepSpec format t request (SignalTable.step format t request) := by
  unfold SignalTable.step handleSignal
  cases hcall : request.call with
  | create data valid => exact createSignal_spec t request hcall
  | update id data valid => exact updateSignal_spec t request hcall
  | delete id => exact deleteSignal_spec t request hcall
  | webhook hook =>
      obtain ⟨result, hresult⟩ := webhook_table t request hook
      show StepSpec format t request (Session.teardown request.teardownCommits
        (telegramWebhook request hook (Session.start t)))
      rw [hresult, Session.start, Session.teardown_read (List.forall_mem_nil _)]
      refine Or.inl ⟨fun row hrow => hrow, ?_⟩
      rw [StoresUnchecked, hcall]
      exact fun h => h

/-- Every state of a run has a consistent store exactly if no request of the run stores a signal
unchecked. -/
theorem store_consistent_iff (format : Json → String) (requests : List SignalRequest) :
    (∀ t ∈ visited (SignalTable.step format) Table.empty requests, StoreConsistent format t) ↔
      Along (SignalTable.step format) (fun t request => ¬ StoresUnchecked format t request)
        Table.empty requests := by
  have hkeeps : ∀ {t : SignalTable} {request : SignalRequest}, StoreConsistent format t →
      ¬ StoresUnchecked format t request → StoreConsistent format (SignalTable.step format t request) := by
    intro t request ht hrequest row hrow
    rcases step_spec t request with ⟨hsub, -⟩ | ⟨signal, hwritten, hsignal⟩
    · exact ht row (hsub row hrow)
    · rcases (hwritten row).mp hrow with rfl | ⟨hold, -⟩
      · exact hsignal.mpr hrequest
      · exact ht row hold
  have hloses : ∀ {t : SignalTable} {request : SignalRequest}, True → StoreConsistent format t →
      StoreConsistent format (SignalTable.step format t request) →
      ¬ StoresUnchecked format t request := by
    intro t request _ _ hnext
    rcases step_spec t request with ⟨-, hsafe⟩ | ⟨signal, hwritten, hsignal⟩
    · exact hsafe
    · exact hsignal.mp (hnext signal ((hwritten signal).mpr (Or.inl rfl)))
  constructor
  · exact @along_of_visited _ _ (SignalTable.step format) _ (StoreConsistent format) _
      (fun _ => trivial) hloses _ _ trivial
  · exact @visited_of_along _ _ (SignalTable.step format) _ (StoreConsistent format) hkeeps _ _
      (List.forall_mem_nil _)

/-- A creation with nothing for the extractor to find: BUY at 1.10 with the stop at 1.09. -/
def createBuy : SignalRequest where
  userId := 1
  call := .create
    { rawText := "EURUSD", symbol := some "EURUSD", action := some "BUY", orderType := none
      entryPrice := some (11 / 10), stopLoss := some (109 / 100), takeProfit := none
      channelId := none, confidence := none }
    { rawText := by decide, symbol := by decide, action := by decide, orderType := by decide
      entryPrice := by with_unfolding_all decide
      stopLoss := by with_unfolding_all decide
      takeProfit := by simp
      confidence := by decide }
  newId := 1
  now := 0
  reply := none
  commits := true
  teardownCommits := true
  broadcasts := true

def turnToSell : SignalRequest :=
  { createBuy with
    call := .update 1
      { rawText := none, symbol := none, action := some (some "SELL"), orderType := none
        entryPrice := none, stopLoss := none, takeProfit := none, channelId := none, status := none
        confidence := none }
      { rawText := by simp, symbol := by simp, action := by simp, orderType := by simp
        entryPrice := by simp, stopLoss := by simp, status := by simp, confidence := by simp } }

theorem stop_on_profit_side :
    ¬ ∀ t ∈ visited (SignalTable.step fun _ => "") Table.empty [createBuy, turnToSell],
      StoreConsistent (fun _ => "") t := by
  intro h
  have hlast := h _ (foldl_mem_visited (SignalTable.step fun _ => "") Table.empty
    [createBuy, turnToSell])
  have hrows : ([createBuy, turnToSell].foldl (SignalTable.step fun _ => "") Table.empty).rows.map
      (fun row => (row.action, row.entryPrice, row.stopLoss)) =
        [("SELL", some (11 / 10), some (109 / 100))] := by
    with_unfolding_all decide
  obtain ⟨row, hrow, hvalues⟩ := List.mem_map.mp (hrows ▸ List.mem_singleton_self _)
  simp only [Prod.mk.injEq] at hvalues
  obtain ⟨haction, hentry, hstop⟩ := hvalues
  have hnonempty : row.action ≠ "" := by
    rw [haction]
    decide
  obtain ⟨items, -, hok⟩ := passes_iff.mp (hlast row hrow hnonempty (11 / 10) hentry)
  have hside : OnLossSide "SELL" (11 / 10) (109 / 100) := haction ▸ hok.stop_side _ hstop
  exact absurd hside (by with_unfolding_all decide)

end SphereFx.Api
