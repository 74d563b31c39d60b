import TalaPala.Economic.Revisions
import TalaPala.Economic.PointInTime
import TalaPala.Equities.Copies
import TalaPala.Equities.SessionReturns
import TalaPala.Equities.Serving
import TalaPala.Equities.OutOfDate
import TalaPala.Library.AsOf
import TalaPala.Library.Selection
import TalaPala.Library.Transition
import TalaPala.Library.Grid
import TalaPala.Prices.Ticks
import TalaPala.Prices.Intervals
import TalaPala.Prices.Candles
import TalaPala.Prices.Paging
import TalaPala.Trend.Resample
import TalaPala.Trend.Backtest
import TalaPala.Trend.Loads
import TalaPala.Trend.TrackRecord
import TalaPala.Trend.Identity
import TalaPala.Trend.Transitions
import TalaPala.Bourse.Scale
import TalaPala.Bourse.Refusals
import TalaPala.Forecast.Intervals
import TalaPala.Forecast.Evaluation
import TalaPala.Scheduler.Lock
import TalaPala.Relvalue.Conversion
import TalaPala.Forecast.Retention
import TalaPala.Liquidity.KnownBand
import TalaPala.Liquidity.Jalali
import TalaPala.MarketHours.Agreement
import TalaPala.Forecast.Features
import TalaPala.Prices.Corroboration
import TalaPala.Bourse.OwedRows
import TalaPala.Forecast.HoldoutLeaks
import TalaPala.Alerts.SignalChange
import TalaPala.News.Gdelt
import TalaPala.News.Consolidate
import TalaPala.News.OfacChanges
import TalaPala.Prices.SpliceRegister
import TalaPala.Bourse.FlowOrder
import TalaPala.Chart.LateTail
import TalaPala.Drawings.Delivery
import TalaPala.Library.Rounding
import TalaPala.Library.Trailing
import TalaPala.Library.Ledger
import TalaPala.Trend.IntradayRun
import TalaPala.Signals.Engine
import TalaPala.Signals.Commitment
import TalaPala.Prices.Overlays
import TalaPala.Prices.TehranPages
import TalaPala.Prices.TehranHistory
import TalaPala.Relvalue.Statistics
import TalaPala.Relvalue.Performance
import TalaPala.Relvalue.UnitOfAccount
import TalaPala.Forecast.Registry
import TalaPala.Forecast.OverlappingPasses
import TalaPala.Economic.Archive
import TalaPala.Economic.Database
import TalaPala.Economic.SciCpi
import TalaPala.Economic.SciOrder
import TalaPala.Economic.CbiEditions
import TalaPala.Economic.CbiRuns
import TalaPala.Economic.EditionStore
import TalaPala.Economic.EditionOrder
import TalaPala.Economic.LockedOut
import TalaPala.Economic.CbiHistory
import TalaPala.Economic.TwoSources
import TalaPala.Economic.SourceRuns
import TalaPala.Bourse.FundCloses
import TalaPala.Bourse.FundChains
import TalaPala.Prices.IntradayCoverage
import TalaPala.Prices.SuspectRuns
import TalaPala.Trend.WindowPerformance
import TalaPala.Economic.ObservationPages
import TalaPala.Backtest.Account
import TalaPala.Backtest.Engine
import TalaPala.Backtest.Costs
import TalaPala.Prices.FundsJob
import TalaPala.Prices.DailyRegister
import TalaPala.Prices.DailyCloses
import TalaPala.Prices.DailyPasses
import TalaPala.Library.TokenBucket
import TalaPala.Library.Sessions
import TalaPala.Library.Strings
import TalaPala.Library.Csv
import TalaPala.Library.Json
import TalaPala.Library.Tenancy
import TalaPala.Bourse.CheckedDays
import TalaPala.Auth.Lockout
import TalaPala.Auth.LockoutRuns
import TalaPala.MarketHours.Closures
import TalaPala.Portfolio.ExportReadsBack
import TalaPala.Portfolio.Totals
import TalaPala.Portfolio.Admission
import TalaPala.Drawings.Request
import TalaPala.Drawings.PutBack
import TalaPala.Drawings.Handlers
import TalaPala.Drawings.Mirrors
import TalaPala.Drawings.Identities
import TalaPala.Drawings.Isolation
import TalaPala.Liquidity.PublishedBand
import TalaPala.Liquidity.Aggregates
import TalaPala.Liquidity.Redefinition
import TalaPala.Library.Intervals
import TalaPala.Library.Grouping
import TalaPala.Relvalue.GapPercentile
import TalaPala.Relvalue.Drawdown
import TalaPala.Relvalue.RealReturns
import TalaPala.Forecast.Embargo
import TalaPala.Forecast.ParallelFolds
import TalaPala.Forecast.SharedFrame
import TalaPala.Trend.StackFeature
import TalaPala.Bourse.MarketCalendar
import TalaPala.Bourse.VouchedShares
import TalaPala.Bourse.ChainedChange
import TalaPala.News.Independence
import TalaPala.News.Payloads
import TalaPala.News.FetchErrors
import TalaPala.News.SourceHealth
import TalaPala.Prices.BackfillWrites
import TalaPala.Equities.ScreenAccount
import TalaPala.Httpserver.RateLimiter
import TalaPala.Drawings.History
import TalaPala.Drawings.Projection
import TalaPala.Signals.Monotone
import TalaPala.Signals.Assembly
import TalaPala.Economic.SheetMoves
import TalaPala.Economic.SciSheet
import TalaPala.Indicators.SuperTrend
import TalaPala.Indicators.ParabolicSar
import TalaPala.Bourse.CalendarWindows
import TalaPala.News.CanonicalForm
import TalaPala.News.JsonDepth
