import SphereFx.Api.SignalStore
import SphereFx.Extractor.Engine

/-!
# What the extractor contributes

A creation asks the extractor about its text and lets the answer override its own fields. A text that
the engine recognises has a positive price, which arrives as a `float`, and the check wants a
`Decimal`: such a creation is refused. A text that it does not recognise comes back as a signal that
was not sent, which overrides nothing. The webhook stores nothing either, so no field of any signal
comes from the extractor.
-/

namespace SphereFx.Api

open Extractor (ParsedSignal ExtractResponse noSignal extract extract_cases)

/-- An answer to a creation is that of the extractor for its text. -/
def Served (request : SignalRequest) : Prop :=
  match request.call with
  | .create data _ =>
      ∀ response ∈ request.reply, ∃ rangeOrder, response = extract rangeOrder data.rawText
  | _ => True

/-- A creation whose text the engine has recognised. -/
def recognised (request : SignalRequest) : Bool :=
  match request.call with
  | .create _ _ => request.reply.any ExtractResponse.success
  | _ => false

/-- The request without the extractor. -/
def SignalRequest.unaided (request : SignalRequest) : SignalRequest := { request with reply := none }

/-- The requests that are left when the extractor and the texts it recognises are taken away. -/
def unaided (requests : List SignalRequest) : List SignalRequest :=
  (requests.filter fun request => !recognised request).map SignalRequest.unaided

variable {format : Json → String}

/-! ### The fields of a creation -/

private theorem override_noSignal (fields : SignalFields) : fields.override noSignal = fields := rfl

private theorem override_of_valid {parsed : ParsedSignal} (h : Extractor.validate parsed = .ok ())
    (fields : SignalFields) :
    (∃ action, (fields.override parsed).action = some action ∧ action ≠ "") ∧
      (fields.override parsed).entryPrice = some (.float parsed.entryPrice) ∧
      (Price.float parsed.entryPrice).truthy = true := by
  obtain ⟨-, haction, -, hentry⟩ := Extractor.validate_eq_ok.mp h
  have htruthy : (Price.float parsed.entryPrice).truthy = true := by
    refine decide_eq_true fun hzero => hentry ?_
    have hvalue : parsed.entryPrice = .fin 0 := hzero
    rw [hvalue]
    exact F64.fin_le_fin.mpr (le_refl 0)
  exact ⟨⟨parsed.action, if_neg haction, haction⟩, if_pos htruthy, htruthy⟩

private theorem checkFields_of_valid {parsed : ParsedSignal} (h : Extractor.validate parsed = .ok ())
    (fields : SignalFields) : ∃ err, checkFields format (fields.override parsed) = .error err := by
  obtain ⟨⟨action, haction, hnonempty⟩, hentry, htruthy⟩ := override_of_valid h fields
  cases hcheck : checkFields format (fields.override parsed) with
  | error err => exact ⟨err, rfl⟩
  | ok u =>
      exfalso
      rw [checkFields, haction, hentry] at hcheck
      simp only [if_pos (And.intro hnonempty htruthy), bind_eq_ok, refuseIf_eq_ok, not_not] at hcheck
      obtain ⟨errors, hvalidate, rfl⟩ := hcheck
      obtain ⟨⟨q, hdecimal⟩, -⟩ := decimal_of_validate hvalidate
      cases hdecimal

section Creation

variable {request : SignalRequest} {data : SignalCreate} {valid : data.Valid}

theorem checkFields_of_recognised (hcall : request.call = .create data valid) (hserved : Served request)
    (h : recognised request = true) :
    ∃ err, checkFields format (extractedFields request.reply data) = .error err := by
  rw [recognised, hcall] at h
  rw [Served, hcall] at hserved
  cases hreply : request.reply with
  | none =>
      rw [hreply] at h
      cases h
  | some response =>
      rw [hreply] at h hserved
      obtain ⟨rangeOrder, rfl⟩ := hserved response rfl
      rcases extract_cases rangeOrder data.rawText with ⟨-, hvalid⟩ | ⟨hfailed, -⟩
      · exact checkFields_of_valid hvalid data.fields
      · have hsuccess : (extract rangeOrder data.rawText).success = true := h
        rw [hfailed] at hsuccess
        cases hsuccess

theorem extractedFields_of_unrecognised (hcall : request.call = .create data valid)
    (hserved : Served request) (h : recognised request = false) :
    extractedFields request.reply data = data.fields := by
  rw [recognised, hcall] at h
  rw [Served, hcall] at hserved
  cases hreply : request.reply with
  | none => rfl
  | some response =>
      rw [hreply] at h hserved
      obtain ⟨rangeOrder, rfl⟩ := hserved response rfl
      rcases extract_cases rangeOrder data.rawText with ⟨hsuccess, -⟩ | ⟨-, hnone⟩
      · have hfailed : (extract rangeOrder data.rawText).success = false := h
        rw [hsuccess] at hfailed
        cases hfailed
      · show data.fields.override (extract rangeOrder data.rawText).parsedSignal = _
        rw [hnone, override_noSignal]

theorem fields_of_checked (hcall : request.call = .create data valid) (hserved : Served request)
    (hcheck : checkFields format (extractedFields request.reply data) = .ok ()) :
    extractedFields request.reply data = data.fields := by
  cases h : recognised request with
  | false => exact extractedFields_of_unrecognised hcall hserved h
  | true =>
      obtain ⟨err, herr⟩ := @checkFields_of_recognised format _ _ _ hcall hserved h
      rw [hcheck] at herr
      cases herr

end Creation

/-! ### Steps and runs -/

theorem handleSignal_of_recognised {request : SignalRequest} (hserved : Served request)
    (h : recognised request = true) (session : SignalSession) :
    ∃ err, handleSignal format request session = (.error err, session) := by
  unfold handleSignal
  cases hcall : request.call with
  | create data valid =>
      obtain ⟨err, herr⟩ := @checkFields_of_recognised format _ _ _ hcall hserved h
      refine ⟨err, ?_⟩
      simp only [createSignal, herr]
      rfl
  | update _ _ _ | delete _ | webhook _ =>
      rw [recognised, hcall] at h
      cases h

private theorem step_of_recognised {request : SignalRequest} (hserved : Served request)
    (h : recognised request = true) (t : SignalTable) : SignalTable.step format t request = t := by
  obtain ⟨err, herr⟩ := @handleSignal_of_recognised format _ hserved h (Session.start t)
  rw [SignalTable.step, herr]
  rfl

private theorem step_unaided {request : SignalRequest} (hserved : Served request)
    (h : recognised request = false) (t : SignalTable) :
    SignalTable.step format t request = SignalTable.step format t request.unaided := by
  have hcallUnaided : request.unaided.call = request.call := rfl
  unfold SignalTable.step handleSignal
  rw [hcallUnaided]
  cases hcall : request.call with
  | create data valid =>
      have hfields := extractedFields_of_unrecognised hcall hserved h
      have hplain : extractedFields request.unaided.reply data = data.fields := rfl
      simp only [createSignal, hfields, hplain]
      rfl
  | update id data valid => rfl
  | delete id => rfl
  | webhook hook =>
      obtain ⟨result, hresult⟩ := webhook_table t request hook
      obtain ⟨plain, hplain⟩ := webhook_table t request.unaided hook
      simp only [hresult, hplain]
      rw [Session.start, Session.teardown_read (List.forall_mem_nil _),
        Session.teardown_read (List.forall_mem_nil _)]

/-- In every run of requests the extractor makes no difference to the signals, but that the creations
of recognised texts are left out: each of them is refused. -/
theorem extraction_stores_nothing (format : Json → String) (requests : List SignalRequest)
    (hserved : ∀ request ∈ requests, Served request) :
    (∀ t, requests.foldl (SignalTable.step format) t =
        (unaided requests).foldl (SignalTable.step format) t) ∧
      ∀ request ∈ requests, recognised request = true → ∀ session,
        ∃ err, handleSignal format request session = (.error err, session) := by
  refine ⟨fun t => ?_, fun request hrequest h => handleSignal_of_recognised (hserved request hrequest) h⟩
  induction requests generalizing t with
  | nil => rfl
  | cons request rest ih =>
      have hfirst := hserved request List.mem_cons_self
      have hrest := ih fun other hother => hserved other (List.mem_cons_of_mem _ hother)
      cases h : recognised request with
      | true =>
          rw [unaided, List.filter_cons_of_neg (by simp [h]), List.foldl_cons,
            step_of_recognised hfirst h]
          exact hrest t
      | false =>
          rw [unaided, List.filter_cons_of_pos (by simp [h]), List.map_cons, List.foldl_cons,
            List.foldl_cons, step_unaided hfirst h]
          exact hrest _

/-- A creation with a text that the engine recognises. -/
def recognisedBuy : SignalRequest :=
  { createBuy with
    call := .create
      { rawText := "BTCUSD BUY BUY ENTRY 50000 SL 49000", symbol := none, action := none
        orderType := none, entryPrice := none, stopLoss := none, takeProfit := none
        channelId := none, confidence := none }
      { rawText := by decide, symbol := by simp, action := by simp, orderType := by simp
        entryPrice := by simp, stopLoss := by simp, takeProfit := by simp, confidence := by simp }
    reply := some (extract id "BTCUSD BUY BUY ENTRY 50000 SL 49000") }

private theorem recognised_recognisedBuy : recognised recognisedBuy = true := by decide +kernel

/-- Only the plain creation after it is stored. -/
theorem extraction_stores_nothing_of_two :
    [recognisedBuy, createBuy].foldl (SignalTable.step fun _ => "") Table.empty =
      [createBuy].foldl (SignalTable.step fun _ => "") Table.empty := by
  have hserved : ∀ request ∈ [recognisedBuy, createBuy], Served request := by
    intro request hrequest
    rcases List.mem_pair.mp hrequest with rfl | rfl
    · exact fun response hresponse => ⟨id, (Option.some.inj hresponse).symm⟩
    · exact fun response hresponse => nomatch hresponse
  have hleft : unaided [recognisedBuy, createBuy] = [createBuy] := by
    rw [unaided, List.filter_cons_of_neg (by simp [recognised_recognisedBuy])]
    rfl
  have hrun := (extraction_stores_nothing (fun _ => "") _ hserved).1 Table.empty
  rwa [hleft] at hrun

end SphereFx.Api
