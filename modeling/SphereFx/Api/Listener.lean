import SphereFx.Api.Signals
import SphereFx.Base.JsonText

/-!
# From the channel to the webhook

The Telegram listener writes a message as a JSON text, signs the bytes and posts them; the webhook
computes the signature of the bytes it receives and reads the text again. Between the two, the text of
a message is what it was, whatever characters it is made of, and whether it arrives depends on the two
secrets alone.
-/

namespace SphereFx.Api

/-- What the two programs use of Python's library and the model leaves open: `hmac.new(key, msg,
sha256).digest()`, `float.__repr__` and `float(text)`. -/
structure Library where
  hmacSha256 : ByteArray → ByteArray → Vector (Fin 256) 32
  reprFloat : ℚ → List Char
  readFloat : List Char → Json

/-- `hexdigest`. -/
def hexdigest (digest : Vector (Fin 256) 32) : String :=
  String.ofList (digest.toList.flatMap fun byte =>
    [(byte.val / 16).digitChar, (byte.val % 16).digitChar])

/-! ### The listener -/

structure ListenerConfig where
  hmacSecret : String
  channelIds : List Int

/-- A message of Telegram; one without text has the empty text. -/
structure TelegramMessage where
  message : String
  chatId : Int
  id : Int
  forward : Bool

structure PostedRequest where
  signature : Option String
  body : ByteArray

/-- The payload of `forward_to_api`. -/
def forwardPayload (rawText : String) (chatId messageId : Int) (timestamp : String) : Json :=
  .obj [("raw_text", .str rawText), ("chat_id", .int chatId), ("message_id", .int messageId),
    ("timestamp", .str timestamp)]

section

variable (lib : Library)

/-- `json.dumps(payload).encode()`. -/
def forwardBody (rawText : String) (chatId messageId : Int) (timestamp : String) : ByteArray :=
  (String.ofList (Json.dumps lib.reprFloat
    (forwardPayload rawText chatId messageId timestamp))).toUTF8

def forwardToApi (cfg : ListenerConfig) (rawText : String) (chatId messageId : Int)
    (timestamp : String) : PostedRequest where
  signature :=
    if cfg.hmacSecret = "" then none
    else some (hexdigest (lib.hmacSha256 cfg.hmacSecret.toUTF8
      (forwardBody lib rawText chatId messageId timestamp)))
  body := forwardBody lib rawText chatId messageId timestamp

/-- `handle_new_message`, which Telethon calls for the configured channels. -/
def handleNewMessage (cfg : ListenerConfig) (msg : TelegramMessage) (timestamp : String) :
    Option PostedRequest :=
  if msg.chatId ∉ cfg.channelIds then none
  else if msg.message = "" then none
  else if msg.forward then none
  else some (forwardToApi lib cfg msg.message msg.chatId msg.id timestamp)

/-! ### The webhook -/

/-- `await request.json()` on the bytes. -/
def requestJson (body : ByteArray) : Option Json :=
  (String.fromUTF8? body).bind fun text => Json.loads lib.readFloat text.toList

/-- What `telegram_webhook` reads of a request, with the digest it expects. -/
def receivedCall (secret : String) (request : PostedRequest) : WebhookCall where
  signature := request.signature
  digest :=
    if secret = "" then none
    else some (hexdigest (lib.hmacSha256 secret.toUTF8 request.body))
  body := requestJson lib request.body

/-! ### Bytes and digests -/

private theorem fromUTF8?_toUTF8 (s : String) : String.fromUTF8? s.toUTF8 = some s := by
  rw [String.toUTF8_eq_toByteArray]
  exact dif_pos s.isValidUTF8

private theorem requestJson_forwardBody (rawText : String) (chatId messageId : Int) (timestamp : String) :
    requestJson lib (forwardBody lib rawText chatId messageId timestamp) =
      some (forwardPayload rawText chatId messageId timestamp) := by
  rw [requestJson, forwardBody, fromUTF8?_toUTF8, Option.bind_some, String.toList_ofList]
  exact Json.loads_dumps lib.reprFloat lib.readFloat rfl

private theorem hexdigest_ascii (digest : Vector (Fin 256) 32) :
    (hexdigest digest).toList.all (fun c => c.toNat < 128) = true := by
  rw [hexdigest, String.toList_ofList, List.all_flatMap, List.all_eq_true]
  intro byte _
  have hsmall : ∀ n < 16, n.digitChar.toNat < 128 := by decide
  have hhigh := hsmall (byte.val / 16) (by omega)
  have hlow := hsmall (byte.val % 16) (by omega)
  simp [hhigh, hlow]

private theorem hexdigest_ne_empty (digest : Vector (Fin 256) 32) : hexdigest digest ≠ "" := by
  intro h
  have hlength : digest.toList.length = 32 := digest.length_toList
  have hlist := congrArg String.toList h
  rw [hexdigest, String.toList_ofList] at hlist
  cases hbytes : digest.toList with
  | nil =>
      rw [hbytes] at hlength
      cases hlength
  | cons byte rest =>
      rw [hbytes] at hlist
      cases hlist

theorem digitChar_injective {m n : Nat} (hm : m < 16) (hn : n < 16)
    (h : m.digitChar = n.digitChar) : m = n := by
  have hm' := Json.hexValue_digitChar m hm
  rw [h, Json.hexValue_digitChar n hn] at hm'
  exact (Option.some.inj hm').symm

private theorem hexdigest_injective : Function.Injective hexdigest := by
  have hlists : ∀ xs ys : List (Fin 256),
      xs.flatMap (fun byte => [(byte.val / 16).digitChar, (byte.val % 16).digitChar]) =
        ys.flatMap (fun byte => [(byte.val / 16).digitChar, (byte.val % 16).digitChar]) →
      xs = ys := by
    intro xs
    induction xs with
    | nil =>
        intro ys h
        cases ys with
        | nil => rfl
        | cons y ys => cases h
    | cons x xs ih =>
        intro ys h
        cases ys with
        | nil => cases h
        | cons y ys =>
            simp only [List.flatMap_cons, List.cons_append, List.nil_append, List.cons.injEq] at h
            obtain ⟨hhigh, hlow, hrest⟩ := h
            have hx := digitChar_injective (by omega) (by omega) hhigh
            have hy := digitChar_injective (by omega) (by omega) hlow
            have hxy : x = y := Fin.ext (by omega)
            rw [hxy, ih ys hrest]
  intro digest digest' h
  have hlist := congrArg String.toList h
  rw [hexdigest, hexdigest, String.toList_ofList, String.toList_ofList] at hlist
  exact Vector.toList_inj.mp (hlists _ _ hlist)

/-! ### Which messages arrive -/

/-- The two secrets give the body the same digest, or the webhook has none. -/
def SecretsAgree (listener webhook : String) (body : ByteArray) : Prop :=
  webhook = "" ∨ listener ≠ "" ∧
    lib.hmacSha256 listener.toUTF8 body = lib.hmacSha256 webhook.toUTF8 body

instance (listener webhook : String) (body : ByteArray) :
    Decidable (SecretsAgree lib listener webhook body) := inferInstanceAs (Decidable (_ ∨ _ ∧ _))

omit lib in
private theorem checkSignature_digests (sent expected : Vector (Fin 256) 32) (body : Option Json) :
    checkSignature ⟨some (hexdigest sent), some (hexdigest expected), body⟩ = .ok () ↔
      sent = expected := by
  have hfilter : (some (hexdigest sent)).filter (· ≠ "") = some (hexdigest sent) :=
    Option.filter_some_pos (by simp [hexdigest_ne_empty])
  simp only [checkSignature, hfilter, bind_eq_ok, refuseIf_eq_ok, hexdigest_ascii]
  simp [hexdigest_injective.eq_iff]

private theorem checkSignature_forward (cfg : ListenerConfig) (secret rawText : String)
    (chatId messageId : Int) (timestamp : String) :
    checkSignature (receivedCall lib secret
        (forwardToApi lib cfg rawText chatId messageId timestamp)) = .ok () ↔
      SecretsAgree lib cfg.hmacSecret secret (forwardBody lib rawText chatId messageId timestamp) := by
  by_cases hsecret : secret = ""
  · simp [checkSignature, receivedCall, SecretsAgree, hsecret]
  by_cases hlistener : cfg.hmacSecret = ""
  · simp [checkSignature, receivedCall, forwardToApi, SecretsAgree, hsecret, hlistener]
  · simp only [receivedCall, forwardToApi, SecretsAgree, if_neg hsecret, if_neg hlistener]
    rw [checkSignature_digests]
    simp [hsecret, hlistener]

omit lib in
theorem webhookText_of_payload {hook : WebhookCall} {rawText : String} (hne : rawText ≠ "")
    {chatId messageId : Int} {timestamp : String}
    (hbody : hook.body = some (forwardPayload rawText chatId messageId timestamp)) (text : Json) :
    webhookText hook = .ok text ↔ checkSignature hook = .ok () ∧ text = .str rawText := by
  have hlookup : Json.lookup [("raw_text", .str rawText), ("chat_id", .int chatId),
      ("message_id", .int messageId), ("timestamp", .str timestamp)] "raw_text" =
        some (.str rawText) := rfl
  have htruthy : (Json.str rawText).truthy = true := decide_eq_true hne
  unfold webhookText
  rw [hbody, bind_eq_ok]
  simp only [forwardPayload, hlookup, Option.getD_some, htruthy, refuseIf]
  constructor
  · rintro ⟨_, hcheck, htext⟩
    exact ⟨hcheck, (Except.ok.inj htext).symm⟩
  · rintro ⟨hcheck, rfl⟩
    exact ⟨(), hcheck, rfl⟩

private theorem webhookText_forward (cfg : ListenerConfig) (secret : String) {rawText : String}
    (hne : rawText ≠ "") (chatId messageId : Int) (timestamp : String) (text : Json) :
    webhookText (receivedCall lib secret
        (forwardToApi lib cfg rawText chatId messageId timestamp)) = .ok text ↔
      SecretsAgree lib cfg.hmacSecret secret (forwardBody lib rawText chatId messageId timestamp) ∧
        text = .str rawText := by
  have hbody : (receivedCall lib secret
      (forwardToApi lib cfg rawText chatId messageId timestamp)).body =
        some (forwardPayload rawText chatId messageId timestamp) := by
    simp only [receivedCall, forwardToApi]
    exact requestJson_forwardBody lib rawText chatId messageId timestamp
  rw [webhookText_of_payload hne hbody, checkSignature_forward]

/-! ### Streams of messages -/

/-- A message of Telegram, the time at which the listener reads its clock, and whether the post reaches
the API. Telethon runs the handlers side by side, so that a stream is in the order of the posts. -/
structure Incoming where
  msg : TelegramMessage
  timestamp : String
  reaches : Bool

/-- What `handle_new_message` forwards. -/
def Forwards (cfg : ListenerConfig) (msg : TelegramMessage) : Prop :=
  msg.chatId ∈ cfg.channelIds ∧ msg.message ≠ "" ∧ msg.forward = false

instance (cfg : ListenerConfig) (msg : TelegramMessage) : Decidable (Forwards cfg msg) :=
  inferInstanceAs (Decidable (_ ∧ _ ∧ _))

/-- The text the webhook asks the extractor about, if it gets so far. -/
def askedText (cfg : ListenerConfig) (secret : String) (incoming : Incoming) : Option Json :=
  if incoming.reaches then
    (handleNewMessage lib cfg incoming.msg incoming.timestamp).bind fun request =>
      (webhookText (receivedCall lib secret request)).toOption
  else none

/-- The texts the extractor is asked about, in the order of the posts. -/
def askedTexts (cfg : ListenerConfig) (secret : String) (stream : List Incoming) : List Json :=
  stream.filterMap (askedText lib cfg secret)

/-- The message gets through everything between the channel and the extractor. -/
def Arrives (cfg : ListenerConfig) (secret : String) (incoming : Incoming) : Prop :=
  incoming.reaches = true ∧ Forwards cfg incoming.msg ∧
    SecretsAgree lib cfg.hmacSecret secret (forwardBody lib incoming.msg.message incoming.msg.chatId
      incoming.msg.id incoming.timestamp)

instance (cfg : ListenerConfig) (secret : String) (incoming : Incoming) :
    Decidable (Arrives lib cfg secret incoming) := inferInstanceAs (Decidable (_ ∧ _ ∧ _))

private theorem handleNewMessage_eq (cfg : ListenerConfig) (msg : TelegramMessage) (timestamp : String) :
    handleNewMessage lib cfg msg timestamp =
      if Forwards cfg msg then some (forwardToApi lib cfg msg.message msg.chatId msg.id timestamp)
      else none := by
  unfold handleNewMessage
  by_cases hchannel : msg.chatId ∈ cfg.channelIds <;> by_cases hne : msg.message = "" <;>
    cases hforward : msg.forward <;> simp [Forwards, hchannel, hne, hforward]

theorem askedText_eq (cfg : ListenerConfig) (secret : String) (incoming : Incoming) :
    askedText lib cfg secret incoming =
      if Arrives lib cfg secret incoming then some (.str incoming.msg.message) else none := by
  unfold askedText
  by_cases hreaches : incoming.reaches = true
  · rw [if_pos hreaches, handleNewMessage_eq]
    by_cases hforwards : Forwards cfg incoming.msg
    · rw [if_pos hforwards, Option.bind_some]
      ext text
      rw [toOption_eq_some, webhookText_forward lib cfg secret hforwards.2.1]
      by_cases hagree : SecretsAgree lib cfg.hmacSecret secret (forwardBody lib incoming.msg.message
          incoming.msg.chatId incoming.msg.id incoming.timestamp)
      · rw [if_pos ⟨hreaches, hforwards, hagree⟩, Option.some.injEq, and_iff_right hagree, eq_comm]
      · rw [if_neg fun h => hagree h.2.2]
        simp [hagree]
    · rw [if_neg hforwards, if_neg fun h => hforwards h.2.1, Option.bind_none]
  · rw [if_neg hreaches, if_neg fun h => hreaches h.1]

/-- The extractor is asked about exactly the texts of the messages that are forwarded, reach the API
and are signed as the webhook expects, each as it was written and in the order of the posts. With
the same secret on both sides, or with none at the webhook, no message that reaches it is refused; a
listener that does not sign is refused by every webhook with a secret. -/
theorem asked_texts_are_sent (cfg : ListenerConfig) (secret : String) (stream : List Incoming) :
    askedTexts lib cfg secret stream =
      (stream.filter fun incoming => Arrives lib cfg secret incoming).map
        (fun incoming => .str incoming.msg.message) ∧
    (secret = "" ∨ cfg.hmacSecret = secret → ∀ incoming, Arrives lib cfg secret incoming ↔
      incoming.reaches = true ∧ Forwards cfg incoming.msg) ∧
    (secret ≠ "" → cfg.hmacSecret = "" → askedTexts lib cfg secret stream = []) := by
  have htexts : ∀ stream, askedTexts lib cfg secret stream =
      (stream.filter fun incoming => Arrives lib cfg secret incoming).map
        (fun incoming => Json.str incoming.msg.message) := by
    intro stream
    induction stream with
    | nil => rfl
    | cons incoming rest ih =>
        unfold askedTexts at ih ⊢
        by_cases harrives : Arrives lib cfg secret incoming
        · rw [List.filterMap_cons_some ((askedText_eq lib cfg secret incoming).trans (if_pos harrives)),
            List.filter_cons, if_pos (decide_eq_true harrives), List.map_cons, ih]
        · rw [List.filterMap_cons_none ((askedText_eq lib cfg secret incoming).trans (if_neg harrives)),
            List.filter_cons, if_neg (by simpa using harrives), ih]
  refine ⟨htexts stream, fun hsecret incoming => ?_, fun hsecret hlistener => ?_⟩
  · have hagree : ∀ body, SecretsAgree lib cfg.hmacSecret secret body := by
      intro body
      by_cases hnone : secret = ""
      · exact .inl hnone
      · have hsame := hsecret.resolve_left hnone
        exact .inr ⟨hsame ▸ hnone, by rw [hsame]⟩
    exact ⟨fun h => ⟨h.1, h.2.1⟩, fun h => ⟨h.1, h.2, hagree _⟩⟩
  · rw [htexts, List.filter_eq_nil_iff.mpr, List.map_nil]
    intro incoming _ harrives
    rcases (of_decide_eq_true harrives).2.2 with hnone | ⟨hne, -⟩
    · exact hsecret hnone
    · exact hne hlistener

end

end SphereFx.Api
