import MarketRules.Backtest.Run
import MarketRules.Csv.PriceTable
import MarketRules.Files.Store
import MarketRules.Settings.Run
import MarketRules.Strategy.Compile

/-!
# Failures

Everything that can keep a command from its end, with the message a person reads
and the exit code a script reads.
-/

namespace MarketRules

/-- Why a settings file cannot be read. -/
inductive SettingsReadError where
  /-- The file cannot be opened. -/
  | file (e : FileError)
  /-- A line of it means nothing. -/
  | line (e : SettingsFileError)
deriving DecidableEq

def SettingsReadError.message : SettingsReadError → String
  | .file e => e.message
  | .line e => e.message

/-- Why a command did not reach its end. -/
inductive Failure where
  /-- A strategy does not compile. -/
  | strategy (e : CompileError)
  /-- A price table cannot be read. -/
  | priceTable (e : PriceTableError)
  /-- The backtest cannot be run. -/
  | backtest (e : BacktestError)
  /-- A settings file cannot be read. -/
  | settingsFile (path : String) (e : SettingsReadError)
  /-- Settings that are in no file cannot be read. -/
  | settingsText (e : SettingsFileError)
  /-- The settings do not describe a run. -/
  | settings (e : SettingsError)
  /-- The file with the prices cannot be opened. -/
  | priceFile (path : String) (e : FileError)
  /-- The report cannot be written. -/
  | reportFile (e : FileError)
deriving DecidableEq

namespace Failure

def message : Failure → String
  | .strategy e => e.message
  | .priceTable e => s!"invalid price data: {e.message}"
  | .backtest e => s!"invalid price data: {e.message}"
  | .settingsFile path e => s!"config parse error in {path}: couldn't read {path}: {e.message}"
  | .settingsText e => s!"config parse error in <string>: {e.message}"
  | .settings e => e.message
  | .priceFile path e => s!"failed to read {path}: {e.message}"
  | .reportFile e => s!"failed to write report: {e.message}"

/-- The exit code of a command that fails. -/
def exitCode : Failure → Nat
  | .priceFile .. | .reportFile .. => 1
  | .settingsFile .. | .settingsText .. | .settings .. => 2
  | .priceTable .. | .backtest .. => 3
  | .strategy .. => 4

end Failure

end MarketRules
