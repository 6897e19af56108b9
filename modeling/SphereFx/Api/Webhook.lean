import SphereFx.Api.SignalStore

/-!
# What the webhook does with the extractor's answer

`telegram_webhook` with the message it hands to `broadcast`. Whatever the extractor accepts, the row it
is put into has the repeated `take_profit` field of the reply in a JSON column, and the commit raises.
-/

namespace SphereFx.Api

open Extractor (ParsedSignal ExtractResponse TakeProfitLevel)

/-- The message of type `signal_feed`. -/
structure FeedMessage where
  signalId : Nat
  symbol : String
  action : String
  entryPrice : Option ℚ
  deriving DecidableEq

def feedMessage (signal : Signal) : FeedMessage where
  signalId := signal.id
  symbol := signal.symbol
  action := signal.action
  entryPrice := signal.entryPrice.filter (· ≠ 0)

/-- `telegram_webhook` and the messages it broadcasts. -/
def webhookRun (request : SignalRequest) (hook : WebhookCall) (session : SignalSession) :
    (Except ApiError (List Signal) × SignalSession) × List FeedMessage :=
  match webhookText hook with
  | .error err => ((.error err, session), [])
  | .ok (.str rawText) =>
      match request.reply with
      | none => ((.ok [], session), [])
      | some response =>
          match storeSignal request systemUser (parsedFields response.parsedSignal rawText) session with
          | .error err => ((.error (extractionFailed err), session), [])
          | .ok (signal, session) =>
              if request.broadcasts then ((.ok [signal], session), [feedMessage signal])
              else ((.error (extractionFailed (.unhandled "dictionary changed size during iteration")),
                session), [feedMessage signal])
  | .ok (.arr _) => ((.ok [], session), [])
  | .ok _ => ((.error (extractionFailed (.unhandled "object is not subscriptable")), session), [])

private theorem webhookRun_fst (request : SignalRequest) (hook : WebhookCall) (session : SignalSession) :
    (webhookRun request hook session).1 = telegramWebhook request hook session := by
  unfold webhookRun telegramWebhook
  cases webhookText hook with
  | error err => rfl
  | ok text =>
      cases text with
      | str rawText =>
          cases request.reply with
          | none => rfl
          | some response =>
              simp only
              cases storeSignal request systemUser (parsedFields response.parsedSignal rawText)
                session with
              | error err => rfl
              | ok stored => cases request.broadcasts <;> rfl
      | null | bool | int | dec | arr | obj => rfl

/-- The row of a reply is refused by its JSON column. -/
private theorem webhookRun_start (t : SignalTable) (request : SignalRequest) (hook : WebhookCall) :
    ∃ result, webhookRun request hook (Session.start t) = ((result, Session.start t), []) := by
  obtain ⟨result, hresult⟩ := webhook_table t request hook
  have hfst := (webhookRun_fst request hook (Session.start t)).trans hresult
  refine ⟨result, Prod.ext hfst ?_⟩
  unfold webhookRun at hfst ⊢
  cases webhookText hook with
  | error err => rfl
  | ok text =>
      cases text with
      | str rawText =>
          cases request.reply with
          | none => rfl
          | some response =>
              simp only at hfst ⊢
              cases hstore : storeSignal request systemUser
                (parsedFields response.parsedSignal rawText) (Session.start t) with
              | error err => rfl
              | ok stored =>
                  obtain ⟨htargets, -⟩ := storeSignal_eq_ok hstore
                  have hcolumn := (newSignal_eq_ok htargets).2.2.2.2.2
                  cases hcolumn
      | null | bool | int | dec | arr | obj => rfl

/-! ### What the reply asks for -/

/-- The price of a column for a price of the extractor. -/
def CarriesPrice (column : Option ℚ) (price : F64) : Prop :=
  ∃ q, price = .fin q ∧ column = some (roundToColumn q)

/-- A stored target has the level and the price of a target of the reply. -/
def CarriesTarget (item : Json) (target : TakeProfitLevel) : Prop :=
  ∃ fields, item = .obj fields ∧
    (Json.lookup fields "level").bind Json.pyInt? = some target.level ∧
    ((Json.lookup fields "price").bind Json.number?).map F64.fin = some target.price

/-- The row has what the extractor has parsed. -/
structure Carries (signal : Signal) (rawText : String) (parsed : ParsedSignal) : Prop where
  rawText : signal.rawText = some rawText
  symbol : signal.symbol = parsed.symbol
  action : signal.action = parsed.action
  orderType : signal.orderType = (textOr parsed.orderType none).getD "MARKET"
  entryPrice : CarriesPrice signal.entryPrice parsed.entryPrice
  stopLoss : CarriesPrice signal.stopLoss parsed.stopLoss
  takeProfit : ∃ items, signal.takeProfit = .arr items ∧
    List.Forall₂ CarriesTarget items parsed.takeProfit
  confidence : signal.confidence = parsed.confidence

/-- The signals after a call of the webhook. -/
def webhookTable (request : SignalRequest) (hook : WebhookCall) (t : SignalTable) : SignalTable :=
  Session.teardown request.teardownCommits (webhookRun request hook (Session.start t)).1

/-- An authenticated body with a text, and a reply that has succeeded. -/
def Accepts (request : SignalRequest) (hook : WebhookCall) (rawText : String)
    (response : ExtractResponse) : Prop :=
  webhookText hook = .ok (.str rawText) ∧ request.reply = some response ∧ response.success = true

/-- One signal with what was parsed is stored and broadcast for a reply that has succeeded, and nothing
otherwise. -/
structure FollowsReply (request : SignalRequest) (hook : WebhookCall) (t : SignalTable) : Prop where
  accepted : ∀ rawText response, Accepts request hook rawText response →
    ∃ signal, (webhookTable request hook t).rows = signal :: t.rows ∧
      Carries signal rawText response.parsedSignal ∧
      (webhookRun request hook (Session.start t)).2 = [feedMessage signal]
  otherwise : (¬ ∃ rawText response, Accepts request hook rawText response) →
    webhookTable request hook t = t ∧ (webhookRun request hook (Session.start t)).2 = []

theorem followsReply_iff (request : SignalRequest) (hook : WebhookCall) (t : SignalTable) :
    FollowsReply request hook t ↔ ¬ ∃ rawText response, Accepts request hook rawText response := by
  obtain ⟨result, hrun⟩ := webhookRun_start t request hook
  constructor
  · rintro hfollows ⟨rawText, response, haccepts⟩
    obtain ⟨signal, -, -, hmessages⟩ := hfollows.accepted rawText response haccepts
    rw [hrun] at hmessages
    cases hmessages
  · intro hnone
    refine ⟨fun rawText response haccepts => absurd ⟨rawText, response, haccepts⟩ hnone,
      fun _ => ⟨?_, by rw [hrun]⟩⟩
    rw [webhookTable, hrun]
    exact Session.teardown_read (List.forall_mem_nil _) request.teardownCommits result

def goldReply : ExtractResponse where
  parsedSignal := ⟨"XAUUSD", "BUY", "MARKET", .fin 1950, .fin 1940, [], 80⟩
  success := true
  errorMessage := ""

def goldHook : WebhookCall := ⟨none, none, some (.obj [("raw_text", .str "BUY GOLD")])⟩

/-- A reply without any target, to a webhook without a secret. -/
theorem accepted_reply_lost :
    ¬ ∀ (request : SignalRequest) (hook : WebhookCall) (t : SignalTable),
      FollowsReply request hook t := by
  intro h
  let request : SignalRequest := ⟨1, .webhook goldHook, 1, 0, some goldReply, true, true, true⟩
  obtain ⟨signal, -, -, hmessages⟩ := (h request goldHook Table.empty).accepted "BUY GOLD" goldReply
    ⟨rfl, rfl, rfl⟩
  cases hmessages

end SphereFx.Api
