import MarketRules.Command.Run
import MarketRules.Proofs.Files.Writing

/-!
# Commands leave files alone

Only a backtest writes, and it writes its report last.  So a run that ends with another
exit code than zero has changed no file, whatever stage it stopped at, and a run that
ends with zero has changed one file at most: the one for the report, with the report
that was printed.  It is the one at the path that the settings name if that path is a
text, and otherwise the one at the path that is shown in its place.

Reading changes nothing, so settings and prices are those of the tree that the run began
with, also if the report replaces one of their files.
-/

namespace MarketRules

/-! ## Reading -/

namespace FileTree

/-- Settings are read and nothing is changed. -/
theorem store_settings_snd (path : RawText) (t : FileTree) : (store.settings path t).2 = t := by
  have read : store.read path t = (t.read path, t) := rfl
  rw [FileStore.settings, bind_apply, read]
  cases t.read path with
  | error e => rfl
  | ok text => rfl

/-- Bars are read and nothing is changed. -/
theorem store_bars_snd (source : DataSource) (t : FileTree) : (store.bars source t).2 = t := by
  cases source with
  | sample => rfl
  | file path =>
    have read : store.read (FileStore.pricePath path.shown) t =
      (t.read (FileStore.pricePath path.shown), t) := rfl
    rw [FileStore.bars, bind_apply, read]
    cases t.read (FileStore.pricePath path.shown) with
    | error e => rfl
    | ok text => rfl

end FileTree

/-- Every failure has an exit code that is not zero. -/
theorem Failure.exitCode_ne_zero (f : Failure) : f.exitCode ≠ 0 := by
  cases f <;> simp [exitCode]

namespace Command

/-! ## A backtest -/

/-- A backtest that began with the files of `t` has printed a report and written it to the
file at `path`, and to no other. -/
def ReportSaved (s : RunSettings) (path : RawText) (t t' : FileTree) (printed : String) : Prop :=
  ∃ strategy bars report, s.strategy.compile = .ok strategy ∧
    (FileTree.store.bars s.data t).1 = .ok bars ∧ strategy.backtest bars = .ok report ∧
    printed = s!"Strategy: {strategy.text}\n" ++ "\n" ++ shownReport report s.showTrades
      ++ s!"\nReport written to: {path.shown}\n" ∧
    t.Wrote path (report.json strategy.toStrategy).render t'

/-- The path at which the report of a backtest is wanted. -/
def reportPath? (s? : Option RunSettings) : Option RawText := s?.bind (·.output)

/-- What a run leaves of the files.  It has settings if it is a backtest. -/
structure LeavesFiles (s? : Option RunSettings) (t : FileTree) (run : Outcome × FileTree) :
    Prop where
  /-- A backtest that succeeds saves the report that it prints. -/
  saved : run.1.exit = 0 → ∀ s path, s? = some s → s.output = some path →
    ReportSaved s path.asShown t run.2 run.1.stdout
  /-- Any other run changes no file. -/
  kept : run.1.exit ≠ 0 ∨ reportPath? s? = none → t.SameFiles run.2

/-- A run that fails before it writes leaves the files as they are. -/
theorem LeavesFiles.of_failed {s? : Option RunSettings} (t : FileTree) {outcome : Outcome}
    (failed : outcome.exit ≠ 0) : LeavesFiles s? t (outcome, t) :=
  ⟨fun succeeded => absurd succeeded failed, fun _ => .refl t⟩

theorem LeavesFiles.of_reportPath?_eq_none {s? : Option RunSettings} (t : FileTree)
    (outcome : Outcome) (unnamed : reportPath? s? = none) : LeavesFiles s? t (outcome, t) := by
  refine ⟨fun _ s path given output => ?_, fun _ => .refl t⟩
  rw [given, reportPath?, Option.bind_some, output] at unnamed
  cases unnamed

/-- Once a backtest is through, saving its report is all that can change a file. -/
theorem writeReport_leavesFiles {s : RunSettings} {strategy : CheckedStrategy} {bars : List Bar}
    {report : Report} {t : FileTree} (compiled : s.strategy.compile = .ok strategy)
    (loaded : (FileTree.store.bars s.data t).1 = .ok bars)
    (ran : strategy.backtest bars = .ok report) :
    LeavesFiles (some s) t (writeReport FileTree.store s.output strategy report
      (s!"Strategy: {strategy.text}\n" ++ "\n" ++ shownReport report s.showTrades) t) := by
  unfold writeReport
  cases named : s.output with
  | none => exact .of_reportPath?_eq_none t _ named
  | some path =>
    show LeavesFiles (some s) t ((FileTree.store.save path.asShown _ >>= _) t)
    rw [FileTree.bind_apply]
    rcases FileTree.save_cases path.asShown (report.json strategy.toStrategy).render t with
      ⟨t', saved, wrote⟩ | ⟨e, t', failed, same⟩
    · rw [saved]
      refine ⟨fun _ s' path' given output => ?_, fun unsaved => ?_⟩
      · cases given
        rw [named] at output
        cases output
        refine ⟨strategy, bars, report, compiled, loaded, ran, ?_, wrote⟩
        rw [path.shown_asShown]
        rfl
      · rcases unsaved with failed | unnamed
        · exact absurd rfl failed
        · rw [reportPath?, Option.bind_some, named] at unnamed
          cases unnamed
    · rw [failed]
      have notZero := Failure.exitCode_ne_zero (.reportFile e)
      exact ⟨fun succeeded => absurd succeeded notZero, fun _ => same⟩

/-- Every stage of a backtest either fails with the files kept or hands over to the next. -/
theorem runBacktestSettings_leavesFiles (s : RunSettings) (t : FileTree) :
    LeavesFiles (some s) t (runBacktestSettings FileTree.store s t) := by
  rw [runBacktestSettings]
  cases compiled : s.strategy.compile with
  | error e => exact .of_failed t (Failure.exitCode_ne_zero (.strategy e))
  | ok strategy =>
    show LeavesFiles (some s) t ((FileTree.store.bars s.data >>= _) t)
    rw [FileTree.bind_apply, FileTree.store_bars_snd]
    cases loaded : (FileTree.store.bars s.data t).1 with
    | error f => exact .of_failed t (Failure.exitCode_ne_zero f)
    | ok bars =>
      cases ran : strategy.backtest bars with
      | error e =>
        simp only [ran]
        exact .of_failed t (Failure.exitCode_ne_zero (.backtest e))
      | ok report =>
        simp only [ran]
        exact writeReport_leavesFiles compiled loaded ran

/-! ## Commands -/

/-- The settings of the backtest that a command asks for, those of a settings file as it is
in the tree. -/
def settingsIn (t : FileTree) : Command → Option RunSettings
  | .backtest s? => s?
  | .backtestOfFile path => (FileTree.store.settings path t).1.toOption
  | .translate _ | .examples _ _ | .phrases => none

/-- Whatever the command, its run leaves the files as the settings of its backtest say. -/
theorem run_leavesFiles (c : Command) (t : FileTree) :
    LeavesFiles (c.settingsIn t) t (c.run FileTree.store t) := by
  cases c with
  | translate sentence => exact .of_reportPath?_eq_none t _ rfl
  | backtestOfFile path =>
    rw [run, FileTree.bind_apply, FileTree.store_settings_snd, settingsIn]
    cases (FileTree.store.settings path t).1 with
    | error f => exact .of_failed t (Failure.exitCode_ne_zero f)
    | ok s => exact runBacktestSettings_leavesFiles s t
  | backtest s? =>
    cases s? with
    | none => exact .of_reportPath?_eq_none t _ rfl
    | some s => exact runBacktestSettings_leavesFiles s t
  | examples toRun name => exact .of_reportPath?_eq_none t _ rfl
  | phrases => exact .of_reportPath?_eq_none t _ rfl

/-- The settings of the backtest that a list of arguments asks for. -/
def settingsOf (args : List RawText) (t : FileTree) : Option RunSettings :=
  (ofArguments args).toOption.bind (settingsIn t)

/-- A run changes one file if it is a backtest that succeeds and its settings name a path for
the report, and no file otherwise.  The file is the one at this path exactly if the path is a
text; the report goes to the path as it is shown. -/
theorem runArguments_files (args : List RawText) (t : FileTree) :
    ∃ result t', runArguments FileTree.store args t = (result, t') ∧
      (exitCode result = 0 → ∀ s path, settingsOf args t = some s → s.output = some path →
        (∃ outcome, result = .ok outcome ∧ ReportSaved s path.asShown t t' outcome.stdout) ∧
          (path.asShown = path ↔ path.text?.isSome = true)) ∧
      (exitCode result ≠ 0 ∨ reportPath? (settingsOf args t) = none → t.SameFiles t') := by
  rw [runArguments, settingsOf]
  cases asked : ofArguments args with
  | error e =>
    refine ⟨.error e, t, rfl, fun _ s path given _ => ?_, fun _ => .refl t⟩
    cases given
  | ok c =>
    have leaves := run_leavesFiles c t
    refine ⟨.ok (c.run FileTree.store t).1, (c.run FileTree.store t).2, rfl, ?_, leaves.kept⟩
    exact fun succeeded s path given output =>
      ⟨⟨_, rfl, leaves.saved succeeded s path given output⟩, path.asShown_eq_self_iff⟩

/-- The path `out.json` with a byte in its middle that encodes nothing. -/
def brokenPath : RawText :=
  ⟨(RawText.ofText "out").bytes ++ 0xFF :: (RawText.ofText ".json").bytes⟩

/-- A directory with prices and a file that has the name as which the broken path is
shown. -/
def pricesAndOld : FileTree :=
  let prices := "date,open,high,low,close,volume\n2024-01-02,9,9,9,9,1\n"
  let work : Directory := [("p.csv", .file prices), ("out\uFFFD.json", .file "old")]
  ⟨.directory [("work", .directory work)], ["work"]⟩

/-- A backtest whose report is wanted at the broken path. -/
def wantedAtBrokenPath : List RawText :=
  ["backtest", "--dsl", "ENTRY: 1 > 0 EXIT: 0 > 1", "-d", "p.csv", "-o", brokenPath]

/-- The settings name a path that is no text and the run succeeds.  No file is there
afterwards, and another file is replaced. -/
theorem runArguments_replaces_unnamed :
    (settingsOf wantedAtBrokenPath pricesAndOld).bind RunSettings.output = some brokenPath ∧
      exitCode (runArguments FileTree.store wantedAtBrokenPath pricesAndOld).1 = 0 ∧
      (runArguments FileTree.store wantedAtBrokenPath pricesAndOld).2.file?
        ["work", brokenPath] = none ∧
      (runArguments FileTree.store wantedAtBrokenPath pricesAndOld).2.file?
        ["work", "out\uFFFD.json"] ≠ some "old" := by
  decide +kernel

-- The report replaces the prices, or it has no place and they stay.
example :
    let prices := "date,open,high,low,close,volume\n2024-01-02,9,9,9,9,1\n"
    let t : FileTree := ⟨.directory [("work", .directory [("p.csv", .file prices)])], ["work"]⟩
    let run (output : RawText) := runArguments FileTree.store
      ["backtest", "--dsl", "ENTRY: 1 > 0 EXIT: 0 > 1", "-d", "p.csv", "-o", output] t
    let after (output : RawText) :=
      (exitCode (run output).1, (run output).2.file? ["work", "p.csv"] == some prices)
    [after "p.csv", after "p.csv/r"] = [(0, false), (1, true)] := by decide +kernel

end Command

end MarketRules
