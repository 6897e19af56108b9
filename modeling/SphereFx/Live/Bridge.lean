import SphereFx.Live.Risk

/-!
# From the accepted job to `mt5.order_send`

`executeOrder` copies seven fields of the payload into a new JSON object, the bridge validates that
object against `OrderRequest`, and `MT5Client.send_order` builds the request for MetaTrader. The
bridge's `float` fields follow pydantic's lax mode, in which a number, a boolean or a numeric string
is accepted; which strings are numeric is left open.
-/

namespace SphereFx.Live

/-- The keys of `orderReq`, in the order `json.Marshal` writes a map. -/
def orderKeys : List String :=
  ["action", "entry_price", "lot_size", "order_type", "stop_loss", "symbol", "take_profit"]

/-- The body of `POST /execute`. -/
def orderBody (payload : List (String × Json)) : Json :=
  .obj (orderKeys.map fun key => (key, (Json.index payload key).remarshal))

/-! ### The request schema -/

inductive Side where
  | buy
  | sell
  deriving DecidableEq, Repr

def Side.ofString : String → Option Side
  | "BUY" => some .buy
  | "SELL" => some .sell
  | _ => none

def Side.text : Side → String
  | .buy => "BUY"
  | .sell => "SELL"

inductive OrderType where
  | market
  | limit
  | stop
  | stopLimit
  deriving DecidableEq, Repr

def OrderType.ofString : String → Option OrderType
  | "MARKET" => some .market
  | "LIMIT" => some .limit
  | "STOP" => some .stop
  | "STOP_LIMIT" => some .stopLimit
  | _ => none

/-- A validated `OrderRequest`. -/
structure OrderRequest where
  symbol : String
  action : Side
  orderType : OrderType
  lotSize : F64
  entryPrice : Option F64
  stopLoss : Option F64
  takeProfit : Option (List (List (String × Json)))
  slippageBps : Option F64

section Schema

variable (parseFloat : String → Option F64)

/-- A `float` in lax mode. -/
def laxFloat : Json → Option F64
  | .int n => some (.fin n)
  | .dec q => some (.fin q)
  | .bool b => some (.fin (if b then 1 else 0))
  | .str s => parseFloat s
  | _ => none

/-- `Optional[float] = None`. -/
def optionalFloat (field : Option Json) : Option (Option F64) :=
  match field with
  | none => some none
  | some .null => some none
  | some v => (laxFloat parseFloat v).map some

/-- `Optional[List[Dict[str, Any]]] = None`. -/
def optionalDicts (field : Option Json) : Option (Option (List (List (String × Json)))) :=
  match field with
  | none => some none
  | some .null => some none
  | some (.arr items) => (items.mapM Json.object?).map some
  | some _ => none

/-- Validation of the request body; a body that fails it is answered with 422. -/
def validateOrder (body : Json) : Option OrderRequest := do
  let fields ← body.object?
  let symbol ← (Json.lookup fields "symbol").bind Json.string?
  guard (symbol.length ≤ 20)
  let action ← ((Json.lookup fields "action").bind Json.string?).bind Side.ofString
  let orderType ← ((Json.lookup fields "order_type").bind Json.string?).bind OrderType.ofString
  let lotSize ← (Json.lookup fields "lot_size").bind (laxFloat parseFloat)
  guard (0 < lotSize ∧ lotSize ≤ .fin 100)
  let entryPrice ← optionalFloat parseFloat (Json.lookup fields "entry_price")
  let stopLoss ← optionalFloat parseFloat (Json.lookup fields "stop_loss")
  let takeProfit ← optionalDicts (Json.lookup fields "take_profit")
  let slippageBps ← optionalFloat parseFloat (Json.lookup fields "slippage_bps")
  return ⟨symbol, action, orderType, lotSize, entryPrice, stopLoss, takeProfit, slippageBps⟩

end Schema

/-! ### The MetaTrader request -/

inductive TradeAction where
  | deal
  | pending
  deriving DecidableEq, Repr

/-- `mt5.ORDER_TYPE_*`: a side and a kind. -/
structure TradeType where
  side : Side
  kind : OrderType
  deriving DecidableEq, Repr

/-- `mt5.ORDER_TIME_*`. -/
inductive OrderTime where
  | gtc
  | day
  | specified
  | specifiedDay
  deriving DecidableEq, Repr

/-- `mt5.ORDER_FILLING_*`; `rest` is `ORDER_FILLING_RETURN`. -/
inductive OrderFilling where
  | fok
  | ioc
  | rest
  deriving DecidableEq, Repr

structure SymbolInfo where
  ask : F64
  bid : F64

/-- The dictionary handed to `mt5.order_send`. -/
structure TradeRequest where
  action : TradeAction
  symbol : String
  volume : F64
  type : TradeType
  price : F64
  sl : Option F64
  tp : Option Json
  deviation : Nat
  magic : Nat
  comment : String
  typeTime : OrderTime
  typeFilling : OrderFilling

/-- `value or fallback` on an optional float. -/
def orElse (value : Option F64) (fallback : F64) : F64 :=
  match value with
  | some x => if x.eq 0 then fallback else x
  | none => fallback

/-- `take_profit[0]["price"] if take_profit else None`; a first level without a price is a
`KeyError`. -/
def firstTarget (takeProfit : Option (List (List (String × Json)))) :
    Except String (Option Json) :=
  match takeProfit with
  | none => .ok none
  | some [] => .ok none
  | some (level :: _) =>
      match Json.lookup level "price" with
      | some price => .ok (some price)
      | none => .error "'price'"

/-- `mt5.symbol_info`, which answers `None` for an unknown symbol. -/
def knownSymbol (symbolInfo : Option SymbolInfo) (symbol : String) : Except String SymbolInfo :=
  match symbolInfo with
  | some info => .ok info
  | none => .error ("Symbol " ++ symbol ++ " not found")

/-- `MT5Client.send_order` up to the call of `mt5.order_send`. -/
def tradeRequest (connected : Bool) (symbolInfo : Option SymbolInfo) (request : OrderRequest) :
    Except String TradeRequest := do
  refuseIf (connected = false) "MT5 not connected"
  let info ← knownSymbol symbolInfo request.symbol
  let tp ← firstTarget request.takeProfit
  return {
    action := if request.orderType = .market then .deal else .pending
    symbol := request.symbol
    volume := request.lotSize
    type := ⟨request.action, request.orderType⟩
    price := orElse request.entryPrice (if request.action = .buy then info.ask else info.bid)
    sl := request.stopLoss
    tp := tp
    deviation := 20
    magic := 123456
    comment := "Sphere FX Manager"
    typeTime := .gtc
    typeFilling := .ioc }

/-- The request MetaTrader receives for a job's payload, if the order gets that far. -/
def sentRequest (parseFloat : String → Option F64) (connected : Bool)
    (symbolInfo : Option SymbolInfo) (payload : Json) : Option TradeRequest := do
  let fields ← payload.unmarshalMap.toOption
  let request ← validateOrder parseFloat (orderBody fields)
  (tradeRequest connected symbolInfo request).toOption

theorem sentRequest_eq_some {parseFloat : String → Option F64} {connected : Bool}
    {symbolInfo : Option SymbolInfo} {payload : Json} {trade : TradeRequest} :
    sentRequest parseFloat connected symbolInfo payload = some trade ↔
      ∃ fields request, payload.unmarshalMap = .ok fields ∧
        validateOrder parseFloat (orderBody fields) = some request ∧
        tradeRequest connected symbolInfo request = .ok trade := by
  simp only [sentRequest, Option.bind_eq_bind, Option.bind_eq_some_iff, toOption_eq_some]
  constructor
  · rintro ⟨fields, hfields, request, hrequest, htrade⟩
    exact ⟨fields, request, hfields, hrequest, htrade⟩
  · rintro ⟨fields, request, hfields, hrequest, htrade⟩
    exact ⟨fields, hfields, request, hrequest, htrade⟩

/-! ### What the components agree on -/

theorem laxFloat_remarshal {parseFloat : String → Option F64} {v : Json} {q : ℚ}
    (h : v.number? = some q) : laxFloat parseFloat v.remarshal = some (.fin q) := by
  rw [← Json.number?_remarshal] at h
  cases hv : v.remarshal with
  | int n =>
      rw [hv] at h
      cases h
      rfl
  | dec r =>
      rw [hv] at h
      cases h
      rfl
  | _ =>
      rw [hv] at h
      cases h

theorem floatField_eq_fin {payload : List (String × Json)} {key : String} :
    ∃ q, floatField payload key = .fin q ∧
      (q ≠ 0 → (Json.index payload key).number? = some q) := by
  unfold floatField Json.float64?
  cases h : (Json.index payload key).number? with
  | none => exact ⟨0, rfl, fun hne => absurd rfl hne⟩
  | some q => exact ⟨q, rfl, fun _ => rfl⟩

theorem optionalFloat_remarshal {parseFloat : String → Option F64} {v : Json} {q : ℚ}
    (h : v.number? = some q) :
    optionalFloat parseFloat (some v.remarshal) = some (some (.fin q)) := by
  have hlax := @laxFloat_remarshal parseFloat v q h
  unfold optionalFloat
  split
  · contradiction
  · rename_i heq
    rw [Option.some.inj heq] at hlax
    cases hlax
  · rename_i heq
    rw [← Option.some.inj heq, hlax]
    rfl

/-- What a validated request says about the payload it was built from. -/
structure Matches (parseFloat : String → Option F64) (payload : List (String × Json))
    (request : OrderRequest) : Prop where
  symbol : (Json.index payload "symbol").string? = some request.symbol
  symbolLength : request.symbol.length ≤ 20
  action : (Json.index payload "action").string?.bind Side.ofString = some request.action
  orderType : (Json.index payload "order_type").string?.bind OrderType.ofString =
    some request.orderType
  lotSize : laxFloat parseFloat (Json.index payload "lot_size").remarshal = some request.lotSize
  bounds : 0 < request.lotSize ∧ request.lotSize ≤ .fin 100
  entryPrice : optionalFloat parseFloat (some (Json.index payload "entry_price").remarshal) =
    some request.entryPrice
  stopLoss : optionalFloat parseFloat (some (Json.index payload "stop_loss").remarshal) =
    some request.stopLoss
  takeProfit : optionalDicts (some (Json.index payload "take_profit").remarshal) =
    some request.takeProfit
  slippageBps : request.slippageBps = none

theorem validateOrder_eq_some {parseFloat : String → Option F64} {payload : List (String × Json)}
    {request : OrderRequest} : validateOrder parseFloat (orderBody payload) = some request ↔
      Matches parseFloat payload request := by
  have hkey : ∀ key ∈ orderKeys, Json.lookup (orderKeys.map fun k =>
      (k, (Json.index payload k).remarshal)) key = some (Json.index payload key).remarshal :=
    fun key hkey => Json.lookup_map_keys hkey _
  have hmissing : Json.lookup (orderKeys.map fun k =>
      (k, (Json.index payload k).remarshal)) "slippage_bps" = none := by
    simp [Json.lookup, orderKeys]
  simp only [validateOrder, orderBody, Json.object?, Option.bind_eq_bind, Option.bind_some,
    Option.bind_eq_some_iff, hkey "action" (by decide), hkey "entry_price" (by decide),
    hkey "lot_size" (by decide), hkey "order_type" (by decide), hkey "stop_loss" (by decide),
    hkey "symbol" (by decide), hkey "take_profit" (by decide), hmissing, Json.string?_remarshal,
    Option.guard_eq_some', Option.pure_def, Option.some.injEq]
  constructor
  · rintro ⟨symbol, hsymbol, -, hlength, side, ⟨action, haction, hside⟩, kind, ⟨type, htype, hkind⟩,
      lotSize, hlot, -, hbounds, entry, hentry, stop, hstop, takeProfit, htp, slippage, hslippage,
      rfl⟩
    refine ⟨hsymbol, hlength, ?_, ?_, hlot, hbounds, hentry, hstop, htp, ?_⟩
    · rw [haction]
      exact hside
    · rw [htype]
      exact hkind
    · exact (Option.some.inj hslippage).symm
  · intro h
    obtain ⟨symbol, side, kind, lotSize, entry, stop, takeProfit, slippage⟩ := request
    obtain rfl : slippage = none := h.slippageBps
    refine ⟨symbol, h.symbol, (), h.symbolLength, side, ?_, kind, ?_, lotSize, h.lotSize, (),
      h.bounds, entry, h.entryPrice, stop, h.stopLoss, takeProfit, h.takeProfit, none, rfl, rfl⟩
    · exact Option.bind_eq_some_iff.mp h.action
    · exact Option.bind_eq_some_iff.mp h.orderType

theorem Side.ofString_eq_some {text : String} {side : Side} (h : Side.ofString text = some side) :
    text = side.text := by
  unfold Side.ofString at h
  split at h <;> cases h <;> rfl

theorem Matches.action_text {parseFloat : String → Option F64} {payload : List (String × Json)}
    {request : OrderRequest} (h : Matches parseFloat payload request) :
    stringField payload "action" = request.action.text := by
  obtain ⟨text, htext, hside⟩ := Option.bind_eq_some_iff.mp h.action
  rw [stringField, htext]
  exact Side.ofString_eq_some hside

theorem tradeRequest_eq_ok {connected : Bool} {symbolInfo : Option SymbolInfo}
    {request : OrderRequest} {trade : TradeRequest} :
    tradeRequest connected symbolInfo request = .ok trade ↔
      connected = true ∧ ∃ info, symbolInfo = some info ∧
        firstTarget request.takeProfit = .ok trade.tp ∧ trade = {
          action := if request.orderType = .market then .deal else .pending
          symbol := request.symbol
          volume := request.lotSize
          type := ⟨request.action, request.orderType⟩
          price := orElse request.entryPrice (if request.action = .buy then info.ask else info.bid)
          sl := request.stopLoss
          tp := trade.tp
          deviation := 20
          magic := 123456
          comment := "Sphere FX Manager"
          typeTime := .gtc
          typeFilling := .ioc } := by
  simp only [tradeRequest, bind_eq_ok, refuseIf_eq_ok, pure_eq_ok, exists_const,
    Bool.not_eq_false]
  apply and_congr_right
  intro _
  constructor
  · rintro ⟨info, hinfo, tp, htp, rfl⟩
    refine ⟨info, ?_, htp, rfl⟩
    cases symbolInfo with
    | none => cases hinfo
    | some info' => rw [Except.ok.inj hinfo]
  · rintro ⟨info, rfl, htp, htrade⟩
    exact ⟨info, rfl, trade.tp, htp, htrade.symm⟩

end SphereFx.Live
