import SphereFx.Api.SignalStore

/-!
# How a creation ends

`create_signal` mixes the fields of the request with those of the extractor. A price is a `Decimal` or
a `float` then, and the targets are dictionaries or protobuf messages. The check raises on a positive
`float`, on a NaN next to a `Decimal`, on a message and on a price that is no number; the insert raises
on what a column does not take.
-/

namespace SphereFx.Api

open Extractor (ParsedSignal ExtractResponse)

/-- Python orders a `Decimal` and a NaN with an exception only. -/
def Price.Ordered : Price → Price → Prop
  | decimal _, float .nan => False
  | float .nan, decimal _ => False
  | _, _ => True

section Targets

variable {format : Json → String} {action : String} {entry : Price}

end Targets

section Endings

variable (format : Json → String)

end Endings

variable {format : Json → String}

def eurusdBuy : SignalCreate where
  rawText := "BUY EURUSD"
  symbol := some "EURUSD"
  action := some "BUY"
  orderType := none
  entryPrice := some (11 / 10)
  stopLoss := some (109 / 100)
  takeProfit := none
  channelId := none
  confidence := none

end SphereFx.Api
