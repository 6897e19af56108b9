import SphereFx.Base.Float
import SphereFx.Base.Json
import SphereFx.Base.RowLock
import SphereFx.Base.Run
import SphereFx.Live.Job
import SphereFx.Live.Queue
import SphereFx.Live.AtMostOnce
import SphereFx.Live.Outcome
import SphereFx.Base.Check
import SphereFx.Live.Positions
import SphereFx.Live.Risk
import SphereFx.Live.Bridge
import SphereFx.Live.OrderSafety
import SphereFx.Api.Models
import SphereFx.Api.Channels
import SphereFx.Api.Route
import SphereFx.Base.Table
import SphereFx.Base.Owned
import SphereFx.Live.Process
import SphereFx.Live.PositionCap
import SphereFx.Live.RiskMonotone
import SphereFx.Base.Session
import SphereFx.Base.Slots
import SphereFx.Base.Rank
import SphereFx.Base.Streak
import SphereFx.Base.Paging
import SphereFx.Api.Connections
import SphereFx.Api.Broadcast
import SphereFx.Api.RateLimit
import SphereFx.Api.SocketHandlers
import SphereFx.Api.Accounts
import SphereFx.Api.Credentials
import SphereFx.Api.Signals
import SphereFx.Api.SignalStore
import SphereFx.Api.Webhook
import SphereFx.Base.Squeeze
import SphereFx.Base.Cut
import SphereFx.Base.Regex
import SphereFx.Base.RegexMap
import SphereFx.Base.Text
import SphereFx.Base.Ascii
import SphereFx.Extractor.Number
import SphereFx.Extractor.Patterns
import SphereFx.Extractor.Cleaner
import SphereFx.Extractor.Engine
import SphereFx.Extractor.Numeral
import SphereFx.Extractor.Levels
import SphereFx.Extractor.Prices
import SphereFx.Backtester.Simulator
import SphereFx.Backtester.Equity
import SphereFx.Backtester.Delivery
import SphereFx.Live.QueueService
import SphereFx.Live.ClaimAgreement
import SphereFx.Api.RouteConflict
import SphereFx.Api.Database
import SphereFx.Api.Isolation
import SphereFx.Api.LicenseRuns
import SphereFx.Api.LicenseAgreement
import SphereFx.Api.BacktestRace
import SphereFx.Api.Licenses
import SphereFx.Api.BacktestRead
import SphereFx.Api.BacktestRun
import SphereFx.Api.Reads
import SphereFx.Api.SignalPages
import SphereFx.Api.LiveUpdates
import SphereFx.Api.CreateSignal
import SphereFx.Api.LicenseKeys
import SphereFx.Api.NumberHelpers
import SphereFx.Api.RiskSizing
import SphereFx.Backtester.Metrics
import SphereFx.Backtester.Streaks
import SphereFx.Backtester.ValueAtRisk
import SphereFx.Backtester.Kelly
import SphereFx.Backtester.Concurrent
import SphereFx.Backtester.Order
import SphereFx.Backtester.Balance
import SphereFx.Backtester.StartDrawdown
import SphereFx.Backtester.Divisors
import SphereFx.Backtester.Spread
import SphereFx.Extractor.Targets
import SphereFx.Extractor.Sections
import SphereFx.Extractor.Conservation
import SphereFx.Extractor.LevelNumbers
import SphereFx.Extractor.ListPass
import SphereFx.Extractor.TargetLists
import SphereFx.Extractor.NumberLists
import SphereFx.Extractor.Conventions
import SphereFx.Extractor.Decimals
import SphereFx.Extractor.Keywords
import SphereFx.Extractor.SymbolName
import SphereFx.Extractor.LetterCase
import SphereFx.Extractor.Formatting
import SphereFx.Base.JsonText
import SphereFx.Base.CheckInsert
import SphereFx.Base.Dispersion
import SphereFx.Live.AtomicStore
import SphereFx.Live.Refinement
import SphereFx.Live.Abandoned
import SphereFx.Live.Fairness
import SphereFx.Live.Mt5Client
import SphereFx.Api.Listener
import SphereFx.Api.Users
import SphereFx.Api.Quota
import SphereFx.Api.QueueHead
import SphereFx.Backtester.Ratios
import SphereFx.Backtester.Progress
import SphereFx.Extractor.NormalForm
import SphereFx.Base.Capture
import SphereFx.Live.Carried
import SphereFx.Api.RoutedOrder
import SphereFx.Extractor.Provenance
import SphereFx.Api.Extraction
import SphereFx.Api.TypedOrder
import SphereFx.Live.Books
