import Mathlib.Algebra.Order.Floor.Ring
import SphereFx.Base.Run
import SphereFx.Base.Session
import SphereFx.Api.Validators

/-!
# The requests that write signals

`create_signal`, `update_signal` and `delete_signal` of `routes/v1/signals.py` and `telegram_webhook`
of `routes/v1/webhook.py`. The extractor's answer is part of the request.
-/

namespace SphereFx.Api

open Extractor (ParsedSignal ExtractResponse)

abbrev SignalTable := Table Signal Signal.id

abbrev SignalSession := Session Signal Signal.id

/-! ### Request bodies -/

/-- A `Decimal` with at most eight decimals. -/
def EightPlaces (q : ℚ) : Prop := (q * 10 ^ 8).den = 1

instance (q : ℚ) : Decidable (EightPlaces q) := inferInstanceAs (Decidable (_ = _))

structure SignalCreate where
  rawText : String
  symbol : Option String
  action : Option String
  orderType : Option String
  entryPrice : Option ℚ
  stopLoss : Option ℚ
  takeProfit : Option (List (List (String × Json)))
  channelId : Option Nat
  confidence : Option Int

/-- `validate_take_profit` on one target. -/
def validateTakeProfitItem (item : List (String × Json)) : Except String Unit :=
  match Json.lookup item "level", Json.lookup item "price" with
  | some level, some _ =>
      match level.pyInt? with
      | some n => refuseIf (n < 1) "Level must be positive integer"
      | none => .error "Level must be positive integer"
  | _, _ => .error "Each TP level must have 'level' and 'price'"

structure SignalCreate.Valid (data : SignalCreate) : Prop where
  rawText : data.rawText ≠ ""
  symbol : ∀ symbol ∈ data.symbol, symbol.length ≤ 20
  action : ∀ action ∈ data.action, action ∈ ["BUY", "SELL"]
  orderType : ∀ orderType ∈ data.orderType, orderType ∈ ["LIMIT", "STOP", "MARKET", "STOP_LIMIT"]
  entryPrice : ∀ price ∈ data.entryPrice, EightPlaces price
  stopLoss : ∀ price ∈ data.stopLoss, EightPlaces price
  takeProfit : ∀ items ∈ data.takeProfit, ∀ item ∈ items, validateTakeProfitItem item = .ok ()
  confidence : ∀ confidence ∈ data.confidence, 0 ≤ confidence ∧ confidence ≤ 100

/-- An update: a field that was not set is `none`, an explicit null is `some none`. -/
structure SignalUpdate where
  rawText : Option (Option String)
  symbol : Option (Option String)
  action : Option (Option String)
  orderType : Option (Option String)
  entryPrice : Option (Option ℚ)
  stopLoss : Option (Option ℚ)
  takeProfit : Option (Option (List (List (String × Json))))
  channelId : Option (Option Nat)
  status : Option (Option String)
  confidence : Option (Option Int)

structure SignalUpdate.Valid (data : SignalUpdate) : Prop where
  rawText : ∀ rawText ∈ data.rawText.join, rawText ≠ ""
  symbol : ∀ symbol ∈ data.symbol.join, symbol.length ≤ 20
  action : ∀ action ∈ data.action.join, action ∈ ["BUY", "SELL"]
  orderType : ∀ orderType ∈ data.orderType.join,
    orderType ∈ ["LIMIT", "STOP", "MARKET", "STOP_LIMIT"]
  entryPrice : ∀ price ∈ data.entryPrice.join, EightPlaces price
  stopLoss : ∀ price ∈ data.stopLoss.join, EightPlaces price
  status : ∀ status ∈ data.status.join, status ∈ ["PENDING", "EXECUTED", "EXPIRED", "CANCELLED"]
  confidence : ∀ confidence ∈ data.confidence.join, 0 ≤ confidence ∧ confidence ≤ 100

/-- A call of the webhook: the signature header, the digest of the body if a secret is configured,
and the body if it is JSON. -/
structure WebhookCall where
  signature : Option String
  digest : Option String
  body : Option Json

inductive SignalCall where
  | create (data : SignalCreate) (valid : data.Valid)
  | update (id : Nat) (data : SignalUpdate) (valid : data.Valid)
  | delete (id : Nat)
  | webhook (hook : WebhookCall)

/-- A call by a user, with what comes from outside: the next identity value, the clock of the
database, the extractor's answer (`none` on any error), whether the handler's commit and the one at
the end are accepted, and whether the broadcast of the webhook succeeds. -/
structure SignalRequest where
  userId : Nat
  call : SignalCall
  newId : Nat
  now : Nat
  reply : Option ExtractResponse
  commits : Bool
  teardownCommits : Bool
  broadcasts : Bool

/-! ### What a new row is made of -/

structure SignalFields where
  rawText : String
  symbol : Option String
  action : Option String
  orderType : Option String
  entryPrice : Option Price
  stopLoss : Option Price
  takeProfit : TakeProfit
  channelId : Option Nat
  confidence : Option Int

def SignalCreate.fields (data : SignalCreate) : SignalFields where
  rawText := data.rawText
  symbol := data.symbol
  action := data.action
  orderType := data.orderType
  entryPrice := data.entryPrice.map .decimal
  stopLoss := data.stopLoss.map .decimal
  takeProfit := data.takeProfit.elim .none .dicts
  channelId := data.channelId
  confidence := data.confidence

/-- `text or default`. -/
def textOr (text : String) (default : Option String) : Option String :=
  if text = "" then default else some text

/-- `price if price else default`, for a price of the extractor. -/
def floatOr (price : F64) (default : Option Price) : Option Price :=
  if (Price.float price).truthy then some (.float price) else default

def SignalFields.override (fields : SignalFields) (parsed : ParsedSignal) : SignalFields :=
  { fields with
    symbol := textOr parsed.symbol fields.symbol
    action := textOr parsed.action fields.action
    orderType := textOr parsed.orderType fields.orderType
    entryPrice := floatOr parsed.entryPrice fields.entryPrice
    stopLoss := floatOr parsed.stopLoss fields.stopLoss
    takeProfit := if parsed.takeProfit = [] then fields.takeProfit else .messages parsed.takeProfit
    confidence := if parsed.confidence = 0 then fields.confidence else some parsed.confidence }

/-- A `DECIMAL(20, 8)` of a number with more decimals: half away from zero. -/
def roundToColumn (q : ℚ) : ℚ :=
  let rounded : ℚ := ⌊|q| * 10 ^ 8 + 1 / 2⌋
  (if q < 0 then -rounded else rounded) / 10 ^ 8

def priceColumn : Option Price → Except ApiError (Option ℚ)
  | none => .ok none
  | some (.decimal q) => .ok (some q)
  | some (.float (.fin q)) => .ok (some (roundToColumn q))
  | some (.float _) => .error (.unhandled "DBAPIError")

/-- A JSON column takes what `json.dumps` can write. -/
def takeProfitColumn : TakeProfit → Except ApiError Json
  | .none => .ok .null
  | .dicts items => .ok (.arr (items.map .obj))
  | .messages _ => .error (.unhandled "Object of type RepeatedComposite is not JSON serializable")

/-- A column that is not nullable. -/
def required (field : Option String) : Except ApiError String :=
  match field with
  | none => .error (.unhandled "IntegrityError")
  | some text => .ok text

def newSignal (id now createdBy : Nat) (fields : SignalFields) : Except ApiError Signal := do
  let symbol ← required fields.symbol
  let action ← required fields.action
  let entryPrice ← priceColumn fields.entryPrice
  let stopLoss ← priceColumn fields.stopLoss
  let takeProfit ← takeProfitColumn fields.takeProfit
  return {
    id, symbol, action, entryPrice, stopLoss, takeProfit, createdBy
    rawText := some fields.rawText
    orderType := (textOr (fields.orderType.getD "") none).getD "MARKET"
    confidence := fields.confidence.getD 0
    status := "PENDING"
    channelId := fields.channelId
    createdAt := now }

/-- `session.add(signal)` and the commit after it. -/
def storeSignal (request : SignalRequest) (createdBy : Nat) (fields : SignalFields)
    (session : SignalSession) : Except ApiError (Signal × SignalSession) := do
  let signal ← newSignal request.newId request.now createdBy fields
  match (session.add signal).commit request.commits with
  | none => .error (.unhandled "commit failed")
  | some session => return (signal, session)

/-! ### Handlers -/

section Handlers

variable (format : Json → String)

/-- The fields a creation works with once the extractor was asked. -/
def extractedFields (reply : Option ExtractResponse) (data : SignalCreate) : SignalFields :=
  match reply with
  | none => data.fields
  | some response => data.fields.override response.parsedSignal

/-- The check of `create_signal`, made when both the action and the entry price count as true. -/
def checkFields (fields : SignalFields) : Except ApiError Unit :=
  match fields.action, fields.entryPrice with
  | some action, some entry =>
      if action ≠ "" ∧ entry.truthy then do
        let errors ← validateSignalConsistency format action entry fields.stopLoss fields.takeProfit
        refuseIf (errors ≠ []) (.validation "Signal validation failed" errors)
      else .ok ()
  | _, _ => .ok ()

def createSignal (request : SignalRequest) (data : SignalCreate) (session : SignalSession) :
    Except ApiError (List Signal) × SignalSession :=
  let fields := extractedFields request.reply data
  let outcome := do
    checkFields format fields
    storeSignal request request.userId fields session
  match outcome with
  | .error err => (.error err, session)
  | .ok (signal, session) => (.ok [signal], session)

def ownSignal (table : SignalTable) (userId id : Nat) : Option Signal :=
  (table.find? id).filter fun signal => signal.createdBy = userId

def signalNotFound (id : Nat) : ApiError := .notFound ("Signal " ++ toString id ++ " not found")

def assignSignal (data : SignalUpdate) (signal : Signal) : Except ApiError Signal := do
  let symbol ← notNull data.symbol
  let action ← notNull data.action
  let orderType ← notNull data.orderType
  let status ← notNull data.status
  let confidence ← notNull data.confidence
  return { signal with
    rawText := data.rawText.getD signal.rawText
    symbol := symbol.getD signal.symbol
    action := action.getD signal.action
    orderType := orderType.getD signal.orderType
    entryPrice := data.entryPrice.getD signal.entryPrice
    stopLoss := data.stopLoss.getD signal.stopLoss
    takeProfit := match data.takeProfit with
      | none => signal.takeProfit
      | some none => .null
      | some (some items) => .arr (items.map .obj)
    channelId := data.channelId.getD signal.channelId
    status := status.getD signal.status
    confidence := confidence.getD signal.confidence }

def updateSignal (request : SignalRequest) (id : Nat) (data : SignalUpdate)
    (session : SignalSession) : Except ApiError (List Signal) × SignalSession :=
  match ownSignal session.table request.userId id with
  | none => (.error (signalNotFound id), session)
  | some signal =>
      match assignSignal data signal with
      | .error err => (.error err, session.load signal)
      | .ok signal' =>
          match ((session.load signal).modify id fun _ => signal').commit request.commits with
          | none => (.error (.unhandled "commit failed"), session)
          | some session => (.ok [signal'], session)

def deleteSignal (request : SignalRequest) (id : Nat) (session : SignalSession) :
    Except ApiError (List Signal) × SignalSession :=
  match ownSignal session.table request.userId id with
  | none => (.error (signalNotFound id), session)
  | some signal =>
      match ((session.load signal).remove id).commit request.commits with
      | none => (.error (.unhandled "commit failed"), session)
      | some session => (.ok [], session)

def checkSignature (hook : WebhookCall) : Except ApiError Unit :=
  match hook.digest with
  | none => .ok ()
  | some expected =>
      match hook.signature.filter (· ≠ "") with
      | none => .error (.validation "Missing HMAC signature" [])
      | some signature => do
          refuseIf (¬ signature.toList.all fun c => c.toNat < 128)
            (.unhandled "comparing strings with non-ASCII characters is not supported")
          refuseIf (signature ≠ expected) (.validation "Invalid HMAC signature" [])

def webhookText (hook : WebhookCall) : Except ApiError Json := do
  checkSignature hook
  match hook.body with
  | none => .error (.validation "Invalid JSON body" [])
  | some (.obj fields) => do
      let rawText := (Json.lookup fields "raw_text").getD .null
      refuseIf (rawText.truthy = false) (.validation "Missing raw_text field" [])
      return rawText
  | some _ => .error (.unhandled "object has no attribute 'get'")

/-- The row of the webhook takes the parsed values as they are. -/
def parsedFields (parsed : ParsedSignal) (rawText : String) : SignalFields where
  rawText := rawText
  symbol := some parsed.symbol
  action := some parsed.action
  orderType := some parsed.orderType
  entryPrice := some (.float parsed.entryPrice)
  stopLoss := some (.float parsed.stopLoss)
  takeProfit := .messages parsed.takeProfit
  channelId := none
  confidence := some parsed.confidence

def ApiError.text : ApiError → String
  | .notFound message => message
  | .conflict message => message
  | .validation message _ => message
  | .unhandled text => text

def extractionFailed (err : ApiError) : ApiError := .validation ("Extraction failed: " ++ err.text) []

def systemUser : Nat := 1

def telegramWebhook (request : SignalRequest) (hook : WebhookCall) (session : SignalSession) :
    Except ApiError (List Signal) × SignalSession :=
  match webhookText hook with
  | .error err => (.error err, session)
  | .ok (.str rawText) =>
      match request.reply with
      | none => (.ok [], session)
      | some response =>
          match storeSignal request systemUser (parsedFields response.parsedSignal rawText) session with
          | .error err => (.error (extractionFailed err), session)
          | .ok (signal, session) =>
              if request.broadcasts then (.ok [signal], session)
              else (.error (extractionFailed (.unhandled "dictionary changed size during iteration")),
                session)
  -- The extractor takes text only, and the log line of a failed extraction slices its argument.
  | .ok (.arr _) => (.ok [], session)
  | .ok _ => (.error (extractionFailed (.unhandled "object is not subscriptable")), session)

def handleSignal (request : SignalRequest) (session : SignalSession) :
    Except ApiError (List Signal) × SignalSession :=
  match request.call with
  | .create data _ => createSignal format request data session
  | .update id data _ => updateSignal request id data session
  | .delete id => deleteSignal request id session
  | .webhook hook => telegramWebhook request hook session

def SignalTable.step (table : SignalTable) (request : SignalRequest) : SignalTable :=
  Session.teardown request.teardownCommits (handleSignal format request (Session.start table))

end Handlers

end SphereFx.Api
