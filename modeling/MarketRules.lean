import MarketRules.Number.Binary64
import MarketRules.Number.Decimal
import MarketRules.Number.Shortest
import MarketRules.Number.Fixed
import MarketRules.Text.CodeRange
import MarketRules.Text.WordTable
import MarketRules.Text.CaseTable
import MarketRules.Number.Numeral
import MarketRules.Text.Blank
import MarketRules.Text.WordChar
import MarketRules.Text.Casing
import MarketRules.Calendar.Date
import MarketRules.Calendar.DateText
import MarketRules.Market.Bar
import MarketRules.Rule.Basic
import MarketRules.Rule.Text
import MarketRules.Rule.Meaning
import MarketRules.Indicator.MovingAverage
import MarketRules.Indicator.Series
import MarketRules.Strategy.Basic
import MarketRules.Strategy.Signals
import MarketRules.Backtest.Trade
import MarketRules.Backtest.Run
import MarketRules.Backtest.Stats
import MarketRules.Language.Token
import MarketRules.Language.Lexeme
import MarketRules.Language.Tree
import MarketRules.Language.Parse
import MarketRules.Language.Build
import MarketRules.Text.Pattern
import MarketRules.English.Phrases
import MarketRules.English.Translation
import MarketRules.Csv.Records
import MarketRules.Csv.PriceTable
import MarketRules.Market.Sample
import MarketRules.Settings.Sections
import MarketRules.Settings.Run
import MarketRules.English.Catalog
import MarketRules.Strategy.Compile
import MarketRules.Report.Console
import MarketRules.Report.Json
import MarketRules.Files.Store
import MarketRules.Files.Tree
import MarketRules.Command.Failure
import MarketRules.Command.Arguments
import MarketRules.Command.Basic
import MarketRules.Command.Run
import MarketRules.Main
import MarketRules.Proofs.Market.ValidSeries
import MarketRules.Proofs.Number.Order
import MarketRules.Proofs.Strategy.SignalPrefix
import MarketRules.Proofs.Backtest.Schedule
import MarketRules.Proofs.Backtest.ScheduledReport
import MarketRules.Proofs.Backtest.NoLookAhead
import MarketRules.Proofs.Language.Grammar
import MarketRules.Proofs.Language.Reading
import MarketRules.Proofs.Language.Parsing
import MarketRules.Proofs.Number.Rounding
import MarketRules.Proofs.Number.PlainNumeral
import MarketRules.Proofs.Number.ReadBack
import MarketRules.Proofs.Language.Spelling
import MarketRules.Proofs.Language.RoundTrip
import MarketRules.Proofs.Strategy.Checking
import MarketRules.Proofs.Strategy.FreshSignals
import MarketRules.Proofs.Language.Clauses
import MarketRules.Proofs.English.ClauseText
import MarketRules.Proofs.English.Sentences
import MarketRules.Proofs.Language.FirstRefused
import MarketRules.Proofs.Number.WholeNumber
import MarketRules.Proofs.Language.CanonicalReach
import MarketRules.Proofs.Text.Trimming
import MarketRules.Proofs.Text.CharClass
import MarketRules.Proofs.Calendar.DateReading
import MarketRules.Proofs.Csv.PlainTable
import MarketRules.Proofs.Csv.PriceTableText
import MarketRules.Proofs.Success
import MarketRules.Proofs.Files.Places
import MarketRules.Proofs.Files.Writing
import MarketRules.Proofs.Command.FilesKept
import MarketRules.Proofs.Strategy.Warmup
import MarketRules.Proofs.Number.ExactSums
import MarketRules.Proofs.Indicator.WindowSums
import MarketRules.Proofs.Indicator.Averages
import MarketRules.Proofs.English.CanonicalPieces
import MarketRules.Proofs.English.CanonicalText
import MarketRules.Proofs.English.KeptCalls
import MarketRules.Proofs.English.ClauseShape
import MarketRules.Proofs.English.HollowClauses
import MarketRules.Proofs.Number.ExactProducts
import MarketRules.Proofs.English.Comparisons
import MarketRules.Proofs.English.Magnitudes
import MarketRules.Proofs.Language.NumberText
import MarketRules.Proofs.English.Thresholds
import MarketRules.Proofs.Strategy.Duality
import MarketRules.Proofs.Language.FirstFault
import MarketRules.Proofs.Number.Bounds
import MarketRules.Proofs.Number.Unsigned
import MarketRules.Proofs.Backtest.Equity
import MarketRules.Proofs.Backtest.Drawdown
import MarketRules.Proofs.Backtest.Figures
import MarketRules.Proofs.Language.Lossless
import MarketRules.Proofs.Language.Grouping
import MarketRules.Proofs.Csv.LineNumbers
import MarketRules.Proofs.Command.HonouredOptions
import MarketRules.Proofs.Settings.StrategyText
import MarketRules.Proofs.Language.Caret
import MarketRules.Proofs.Backtest.TradeFigures
