import SphereFx.Base.Regex
import SphereFx.Base.Text
import SphereFx.Base.Float

/-!
# The pattern files

The configuration the extractor loads from `config/patterns`, and its values as shipped.
-/

namespace SphereFx.Extractor

open Text

structure PatternConfig where
  component : String
  mainTerm : String
  aliases : List String
  connectors : List String
  symbolMapping : List (String × String) := []
  multiValue : Bool := false
  /-- `multi_value_pattern.with_index`, compiled, if it is not empty. -/
  withIndex : Option Pattern := none
  /-- Whether `multi_value_pattern.no_index_list` is not empty; its text is not used. -/
  noIndexList : Bool := false
  removeSpacesInsideNumber : Bool := false
  replaceCommasWithDots : Bool := false
  validateAgainstSymbol : Bool := false

structure SymbolRule where
  decimalPlaces : List Nat
  minValue : ℚ
  maxValue : ℚ
  decimalSeparator : String
  thousandsSeparator : String

/-- A text under `(?i)`. -/
def word (text : String) : Re := Re.literal sameFold text.toList

/-! ### The components -/

def symbolConfig : PatternConfig where
  component := "symbol"
  mainTerm := ""
  aliases := []
  connectors := []
  symbolMapping := [
    ("GOLD", "XAUUSD"), ("SILVER", "XAGUSD"), ("BTC", "BTCUSD"), ("ETH", "ETHUSD"),
    ("LTC", "LTCUSD"), ("XRP", "XRPUSD"), ("BCH", "BCHUSD"), ("BNB", "BNBUSD"), ("ADA", "ADAUSD"),
    ("DOT", "DOTUSD"), ("SOL", "SOLUSD"), ("AVAX", "AVAXUSD"), ("MATIC", "MATICUSD"),
    ("LINK", "LINKUSD"), ("UNI", "UNIUSD"), ("ATOM", "ATOMUSD"), ("FTM", "FTMUSD"),
    ("NEAR", "NEARUSD"), ("ARB", "ARBUSD"), ("APT", "APTUSD"), ("OP", "OPUSD"), ("DOGE", "DOGEUSD"),
    ("SHIB", "SHIBUSD"), ("PEPE", "PEPEUSD"), ("WLD", "WLDUSD"), ("SUI", "SUIUSD"),
    ("SEI", "SEIUSD"), ("INJ", "INJUSD"), ("RUN", "RUNUSD"), ("STX", "STXUSD"), ("FIL", "FILUSD"),
    ("AAVE", "AAVEUSD"), ("MKR", "MKRUSD"), ("COMP", "COMPUSD"), ("CRV", "CRVUSD"),
    ("SNX", "SNXUSD"), ("ZEC", "ZECUSD"), ("XLM", "XLMUSD"), ("ALGO", "ALGOUSD"), ("VET", "VETUSD"),
    ("ICP", "ICPUSD"), ("ETC", "ETCUSD"), ("XMR", "XMRUSD"), ("DASH", "DASHUSD"), ("ZIL", "ZILUSD"),
    ("QTUM", "QTUMUSD"), ("ONT", "ONTUSD"), ("NEO", "NEOUSD"), ("WAVES", "WAVESUSD"),
    ("EOS", "EOSUSD"), ("TRX", "TRXUSD"), ("BNBUSDT", "BNBUSD"), ("BTCUSDT", "BTCUSD"),
    ("ETHUSDT", "ETHUSD"), ("NAS100", "NAS100"), ("US30", "US30"), ("US500", "US500"),
    ("SPX500", "SPX500"), ("UK100", "UK100"), ("GER40", "GER40"), ("FRA40", "FRA40"),
    ("JPN225", "JPN225"), ("AUS200", "AUS200"), ("HK50", "HK50"), ("CHINA50", "CHINA50"),
    ("TWIX", "TWIX"), ("STOXX50E", "STOXX50E"), ("IT40", "IT40"), ("SPAIN35", "SPAIN35"),
    ("SWISS20", "SWISS20"), ("NZ50", "NZ50"), ("SG20", "SG20"), ("INDIA50", "INDIA50"),
    ("BRAZIL50", "BRAZIL50"), ("MEXICO35", "MEXICO35"), ("RUSSIA50", "RUSSIA50"),
    ("NIFTY50", "NIFTY50"), ("SENSEX", "SENSEX"), ("KOSPI200", "KOSPI200"), ("TAIEX", "TAIEX"),
    ("HANG_SENG", "HSI"), ("S&P500", "SPX500"), ("DOW", "US30"), ("NASDAQ", "NAS100"),
    ("FTSE100", "UK100"), ("DAX", "GER40"), ("CAC40", "FRA40"), ("NIKKEI225", "JPN225"),
    ("ASX200", "AUS200"), ("HSI", "HK50"), ("CSI300", "CHINA50"), ("DJIA", "US30"), ("VIX", "VIX")]

def actionConfig : PatternConfig where
  component := "action"
  mainTerm := "buy"
  aliases := ["long", "comprar", "kaufen", "buying", "bid", "bull", "compr", "köp", "buy now",
    "enter long", "go long", "buy stop", "buy limit"]
  connectors := [" "]

def orderTypeConfig : PatternConfig where
  component := "order_type"
  mainTerm := "limit"
  aliases := ["market", "stop", "stop limit", "stop-loss", "take-profit", "entry", "pending"]
  connectors := [" "]

def entryPriceConfig : PatternConfig where
  component := "entry_price"
  mainTerm := "entry"
  aliases := ["@", "at", "price", "enter", "entry price", "price at", "level", "buy at", "sell at"]
  connectors := ["@", ":", "=", "", "-", "~", "–"]
  removeSpacesInsideNumber := true
  validateAgainstSymbol := true

def stopLossConfig : PatternConfig where
  component := "stop_loss"
  mainTerm := "stop loss"
  aliases := ["sl", "stoploss", "stop out", "s/l", "stop", "loss", "risk", "cut loss", "stop-loss",
    "sl.", "s.l.", "sloss", "stop_loss"]
  connectors := [":", ";", "#", "=", "-", ":-", "", " "]
  removeSpacesInsideNumber := true
  validateAgainstSymbol := true

/-- `(?i)(tp|take\s*profit|t\s*p)\s*(\d+)[\s:=-]*([\d.,]+)`. -/
def indexedTarget : Re :=
  Re.seqs [
    .group 1 (Re.alts [word "tp", Re.seqs [word "take", .many Re.isSpace true, word "profit"],
      Re.seqs [word "t", .many Re.isSpace true, word "p"]]),
    .many Re.isSpace true,
    .group 2 (Re.many1 Re.isDigit),
    .many (fun c => Re.isSpace c || c == ':' || c == '=' || c == '-') true,
    .group 3 (Re.many1 fun c => Re.isDigit c || c == '.' || c == ',')]

def takeProfitConfig : PatternConfig where
  component := "take_profit"
  mainTerm := "take profit"
  aliases := ["tp", "target", "profit", "t/p", "t.p.", "tp.", "take-profit", "targ", "targets",
    "profits"]
  connectors := [":", ";", "#", "=", "-", "", " "]
  multiValue := true
  withIndex := some indexedTarget.pattern
  noIndexList := true
  removeSpacesInsideNumber := true
  replaceCommasWithDots := true
  validateAgainstSymbol := true

/-- The files with a component that the parser asks for. -/
def shippedPatterns : List PatternConfig :=
  [symbolConfig, actionConfig, orderTypeConfig, entryPriceConfig, stopLossConfig, takeProfitConfig]

/-! ### The rules of the symbols -/

/-- Every shipped rule has the point as its decimal separator. -/
def rule (decimalPlaces : List Nat) (minValue maxValue : ℚ) (thousandsSeparator : String) :
    SymbolRule :=
  ⟨decimalPlaces, minValue, maxValue, ".", thousandsSeparator⟩

def shippedRules : List (String × SymbolRule) := [
    ("XAUUSD", rule [1, 2] (1000) (5000) ","), ("XAGUSD", rule [2, 3] (10) (100) ","),
    ("EURUSD", rule [4, 5] (1 / 2) (5 / 2) ""), ("GBPUSD", rule [4, 5] (4 / 5) (11 / 5) ""),
    ("USDJPY", rule [2, 3] (80) (200) ""), ("USDCHF", rule [4, 5] (1 / 2) (2) ""),
    ("AUDUSD", rule [4, 5] (2 / 5) (2) ""), ("NZDUSD", rule [4, 5] (2 / 5) (2) ""),
    ("USDCAD", rule [4, 5] (4 / 5) (2) ""), ("EURGBP", rule [4, 5] (1 / 2) (2) ""),
    ("EURJPY", rule [2, 3] (80) (200) ""), ("GBPJPY", rule [2, 3] (100) (300) ""),
    ("AUDJPY", rule [2, 3] (50) (150) ""), ("NZDJPY", rule [2, 3] (50) (150) ""),
    ("CHFJPY", rule [2, 3] (80) (200) ""), ("EURAUD", rule [4, 5] (4 / 5) (5 / 2) ""),
    ("EURCAD", rule [4, 5] (4 / 5) (5 / 2) ""), ("GBPAUD", rule [4, 5] (1) (3) ""),
    ("GBPCAD", rule [4, 5] (1) (3) ""), ("AUDCAD", rule [4, 5] (1 / 2) (2) ""),
    ("AUDCHF", rule [4, 5] (2 / 5) (2) ""), ("CADCHF", rule [4, 5] (2 / 5) (2) ""),
    ("GBPCHF", rule [4, 5] (4 / 5) (5 / 2) ""), ("USDMXN", rule [2, 3, 4] (10) (30) ","),
    ("USDTRY", rule [2, 3, 4] (10) (40) ","), ("USDZAR", rule [2, 3, 4] (10) (25) ","),
    ("USDSGD", rule [2, 3, 4] (4 / 5) (5 / 2) ""), ("USDHKD", rule [2, 3, 4] (7) (9) ""),
    ("USDCNY", rule [2, 3, 4] (5) (10) ""), ("USDINR", rule [2, 3, 4] (60) (100) ","),
    ("USDRUB", rule [2, 3, 4] (50) (150) ","), ("USDNOK", rule [2, 3, 4] (5) (15) ","),
    ("USDSEK", rule [2, 3, 4] (5) (15) ","), ("USDDKK", rule [2, 3, 4] (5) (12) ","),
    ("EURCHF", rule [4, 5] (1 / 2) (5 / 2) ""), ("EURSEK", rule [2, 3, 4] (8) (15) ","),
    ("EURNOK", rule [2, 3, 4] (8) (15) ","), ("EURDKK", rule [2, 3, 4] (7) (10) ","),
    ("GBPNOK", rule [2, 3, 4] (10) (20) ","), ("GBPSEK", rule [2, 3, 4] (10) (20) ","),
    ("NOKSEK", rule [2, 3, 4] (4 / 5) (2) ","), ("BTCUSD", rule [0, 1, 2] (10000) (200000) ","),
    ("ETHUSD", rule [0, 1, 2] (500) (8000) ","), ("LTCUSD", rule [0, 1, 2] (10) (1000) ","),
    ("XRPUSD", rule [2, 3, 4] (1 / 10) (10) ","), ("BCHUSD", rule [0, 1, 2] (50) (2000) ","),
    ("BNBUSD", rule [0, 1, 2] (50) (1000) ","), ("ADAUSD", rule [2, 3, 4] (1 / 10) (5) ","),
    ("DOTUSD", rule [2, 3, 4] (1) (100) ","), ("SOLUSD", rule [0, 1, 2] (10) (500) ","),
    ("AVAXUSD", rule [0, 1, 2] (5) (200) ","), ("MATICUSD", rule [2, 3, 4] (1 / 10) (5) ","),
    ("LINKUSD", rule [2, 3, 4] (1) (100) ","), ("UNIUSD", rule [2, 3, 4] (1) (100) ","),
    ("ATOMUSD", rule [2, 3, 4] (1) (100) ","), ("FTMUSD", rule [2, 3, 4] (1 / 10) (5) ","),
    ("NEARUSD", rule [2, 3, 4] (1 / 2) (50) ","), ("ARBUSD", rule [2, 3, 4] (1 / 10) (10) ","),
    ("APTUSD", rule [2, 3, 4] (1 / 2) (50) ","), ("OPUSD", rule [2, 3, 4] (1 / 10) (10) ","),
    ("DOGEUSD", rule [4, 5, 6] (1 / 100) (1) ","),
    ("SHIBUSD", rule [6, 7, 8] (1 / 1000000) (1 / 100) ","),
    ("PEPEUSD", rule [6, 7, 8] (1 / 1000000) (1 / 100) ","),
    ("WLDUSD", rule [2, 3, 4] (1 / 2) (50) ","), ("SUIUSD", rule [2, 3, 4] (1 / 2) (50) ","),
    ("SEIUSD", rule [2, 3, 4] (1 / 10) (10) ","), ("INJUSD", rule [2, 3, 4] (1) (100) ","),
    ("RUNUSD", rule [2, 3, 4] (1 / 2) (50) ","), ("STXUSD", rule [2, 3, 4] (1 / 2) (50) ","),
    ("FILUSD", rule [2, 3, 4] (1) (100) ","), ("AAVEUSD", rule [2, 3, 4] (10) (500) ","),
    ("MKRUSD", rule [2, 3, 4] (100) (5000) ","), ("COMPUSD", rule [2, 3, 4] (10) (500) ","),
    ("CRVUSD", rule [2, 3, 4] (1 / 10) (10) ","), ("SNXUSD", rule [2, 3, 4] (1 / 2) (50) ","),
    ("ZECUSD", rule [2, 3, 4] (10) (500) ","), ("XLMUSD", rule [4, 5, 6] (1 / 100) (1) ","),
    ("ALGOUSD", rule [2, 3, 4] (1 / 10) (5) ","), ("VETUSD", rule [4, 5, 6] (1 / 1000) (1 / 2) ","),
    ("ICPUSD", rule [2, 3, 4] (1) (100) ","), ("ETCUSD", rule [2, 3, 4] (5) (200) ","),
    ("XMRUSD", rule [2, 3, 4] (50) (500) ","), ("DASHUSD", rule [2, 3, 4] (10) (500) ","),
    ("ZILUSD", rule [4, 5, 6] (1 / 1000) (1 / 2) ","), ("QTUMUSD", rule [2, 3, 4] (1 / 2) (50) ","),
    ("ONTUSD", rule [2, 3, 4] (1 / 10) (10) ","), ("NEOUSD", rule [2, 3, 4] (1) (100) ","),
    ("WAVESUSD", rule [2, 3, 4] (1 / 2) (50) ","), ("EOSUSD", rule [2, 3, 4] (1 / 10) (10) ","),
    ("TRXUSD", rule [4, 5, 6] (1 / 100) (1) ","), ("NAS100", rule [1, 2] (5000) (30000) ","),
    ("US30", rule [1, 2] (10000) (50000) ","), ("US500", rule [1, 2] (1000) (10000) ","),
    ("SPX500", rule [1, 2] (1000) (10000) ","), ("UK100", rule [1, 2] (3000) (10000) ","),
    ("GER40", rule [1, 2] (5000) (20000) ","), ("FRA40", rule [1, 2] (3000) (10000) ","),
    ("JPN225", rule [1, 2] (10000) (50000) ","), ("AUS200", rule [1, 2] (3000) (10000) ","),
    ("HK50", rule [1, 2] (10000) (40000) ","), ("CHINA50", rule [1, 2] (5000) (20000) ","),
    ("TWIX", rule [1, 2] (5000) (20000) ","), ("STOXX50E", rule [1, 2] (2000) (8000) ","),
    ("IT40", rule [1, 2] (10000) (40000) ","), ("SPAIN35", rule [1, 2] (5000) (15000) ","),
    ("SWISS20", rule [1, 2] (5000) (15000) ","), ("NZ50", rule [1, 2] (5000) (15000) ","),
    ("SG20", rule [1, 2] (2000) (5000) ","), ("INDIA50", rule [1, 2] (10000) (30000) ","),
    ("BRAZIL50", rule [1, 2] (50000) (150000) ","), ("MEXICO35", rule [1, 2] (30000) (80000) ","),
    ("RUSSIA50", rule [1, 2] (1000) (5000) ","), ("NIFTY50", rule [1, 2] (10000) (30000) ","),
    ("SENSEX", rule [1, 2] (30000) (80000) ","), ("KOSPI200", rule [1, 2] (200) (500) ","),
    ("TAIEX", rule [1, 2] (10000) (30000) ","), ("HSI", rule [1, 2] (15000) (40000) ","),
    ("DJIA", rule [1, 2] (20000) (50000) ","), ("VIX", rule [1, 2] (5) (100) "")]

theorem mem_of_lookup {α : Type} {pairs : List (String × α)} {key : String} {value : α}
    (h : pairs.lookup key = some value) : (key, value) ∈ pairs := by
  obtain ⟨front, back, heq, -⟩ := List.lookup_eq_some_iff.mp h
  rw [heq]
  exact List.mem_append_right front List.mem_cons_self

end SphereFx.Extractor
