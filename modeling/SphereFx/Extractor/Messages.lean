import SphereFx.Base.Float

/-!
# The messages of the extractor service

`proto/extractor.proto` as both sides use it. A field that was not sent has the default of its type.
-/

namespace SphereFx.Extractor

structure TakeProfitLevel where
  level : Int
  price : F64
  deriving DecidableEq

structure ParsedSignal where
  symbol : String
  action : String
  orderType : String
  entryPrice : F64
  stopLoss : F64
  takeProfit : List TakeProfitLevel
  confidence : Int
  deriving DecidableEq

structure ExtractResponse where
  parsedSignal : ParsedSignal
  success : Bool
  errorMessage : String

end SphereFx.Extractor
