import Rebuild.Proofs.Project.Report
import Rebuild.Proofs.Text.Utf8

/-!
# Exit codes

The exit code of a run tells whether one of the units that the run rechecked has an error.  Without a stored
document, these are all units.  With one, errors of units that are up to date do not count.

* `RunOutcome.Tells`: the exit code tells whether something is the case;
* `Loaded.Broken`, `Loaded.Notices`: some unit has an error, and some unit that was rechecked has;
* `Loaded.Reports.tells`: what the exit code of a run tells;
* `exitCode_agrees_iff`: when a run ends with the exit code of a run without a stored document;
* `rerun_exits_zero`: it does not when a run that found an error is repeated.
-/

namespace Rebuild

/-- A run that is not cancelled tells by its exit code whether something is the case. -/
def RunOutcome.Tells (o : RunOutcome) (what : Prop) : Prop :=
  o.cancelled = false ∧ (what → o.exitCode = 1) ∧ (¬ what → o.exitCode = 0)

namespace RunOutcome.Tells

variable {o o' : RunOutcome} {what what' : Prop}

theorem congr (h : o.Tells what) (hsame : what ↔ what') : o.Tells what' :=
  ⟨h.1, fun hwhat => h.2.1 (hsame.mpr hwhat), fun hnot => h.2.2 fun hwhat => hnot (hsame.mp hwhat)⟩

theorem exitCode_eq_iff (h : o.Tells what) (h' : o'.Tells what') :
    o.exitCode = o'.exitCode ↔ (what ↔ what') := by
  by_cases hwhat : what
  · by_cases hwhat' : what'
    · simp [h.2.1 hwhat, h'.2.1 hwhat', hwhat, hwhat']
    · simp [h.2.1 hwhat, h'.2.2 hwhat', hwhat, hwhat']
  · by_cases hwhat' : what'
    · simp [h.2.2 hwhat, h'.2.1 hwhat', hwhat, hwhat']
    · simp [h.2.2 hwhat, h'.2.2 hwhat', hwhat, hwhat']

end RunOutcome.Tells

namespace Loaded

variable {σ : Type} [Storage σ] {l l' : Loaded σ} {force : Bool} {report : CycleReport}

/-- One of the units of a project has an error. -/
def Broken (l : Loaded σ) : Prop :=
  ∃ unit ∈ l.sources, l.Faulty unit.path

/-- One of the units that a run rechecked has an error. -/
def Notices (l : Loaded σ) (report : CycleReport) : Prop :=
  ∃ found ∈ report.checked, l.Faulty found.unit

/-- What is noticed is an error of a unit of the project. -/
theorem Reports.broken (h : l.Reports force report) (hnotices : l.Notices report) : l.Broken := by
  obtain ⟨found, hfound, hfaulty⟩ := hnotices
  obtain ⟨unit, hunit, hpath⟩ := h.units found hfound
  exact ⟨unit, hunit, hpath ▸ hfaulty⟩

/-- An error is noticed when its unit is not stored at its version, and in a forced run. -/
theorem Reports.notices (h : l.Reports force report) {unit : SourceUnit} (hunit : unit ∈ l.sources)
    (hfaulty : l.Faulty unit.path) (hcalled : force = true ∨ l.known.Outdates unit) :
    l.Notices report := by
  obtain ⟨found, hfound, hpath⟩ := h.rechecked unit hunit hcalled
  exact ⟨found, hfound, hpath ▸ hfaulty⟩

/-- Without a document, every unit is new. -/
theorem outdates_of_document_eq_none (h : l.document = none) (unit : SourceUnit) :
    l.known.Outdates unit := by
  intro info hinfo
  rw [known, h] at hinfo
  cases hinfo

/-- The exit code of a run tells whether one of the units that it rechecked has an error. -/
theorem Reports.tells (h : l.Reports force report) (hemits : report.EmitsSucceed) :
    RunOutcome.Tells ⟨report.errorCount, report.cancelled⟩ (l.Notices report) := by
  have hcount : 0 < report.errorCount ↔ l.Notices report := by
    rw [CycleReport.errorCount_pos_iff hemits]
    constructor
    · rintro ⟨found, hfound, d, hd, herror⟩
      rw [h.found found hfound] at hd
      exact ⟨found, hfound, d, hd, herror⟩
    · rintro ⟨found, hfound, d, hd, herror⟩
      refine ⟨found, hfound, d, ?_, herror⟩
      rw [h.found found hfound]
      exact hd
  refine ⟨h.completed, fun hnotices => ?_, fun hnot => ?_⟩
  · simp [RunOutcome.exitCode, h.completed, hcount.mpr hnotices]
  · simp [RunOutcome.exitCode, h.completed, mt hcount.mp hnot]

/-- Two projects have the same units with the same contents. -/
structure Alike (l l' : Loaded σ) : Prop where
  snapshot : l'.host.takeSnapshot.1 = l.host.takeSnapshot.1
  units : l'.host.takeSnapshot.2.units = l.host.takeSnapshot.2.units

/-- The same units have errors. -/
theorem Alike.broken_iff (h : l.Alike l') : l'.Broken ↔ l.Broken := by
  have hsources : l'.sources = l.sources := by
    rw [sources, sources, h.snapshot]
  have hfaulty : ∀ path, l'.Faulty path ↔ l.Faulty path := by
    intro path
    rw [Faulty, Faulty, ProjectHost.Faulty, ProjectHost.Faulty, ProjectHost.complaints_congr h.units]
  simp only [Broken, hsources, hfaulty]

theorem run_eq_buildOnce {arguments : Arguments} {workDir : DiskPath} {disk : σ}
    (hbuilds : arguments.dryRun = false ∧ arguments.deps = none)
    (hl : ofArguments arguments workDir disk = .ok l) :
    run arguments workDir disk = buildOnce l arguments.force := by
  rw [run, hl]
  simp [hbuilds.1, hbuilds.2]

end Loaded

/-! ### A unit with an error, built twice -/

namespace Unfinished

def tree : Tree where
  files := [("src/a.unit", "!error no")]
  single := by
    intro path first second hfirst hsecond
    cases List.mem_singleton.mp hfirst
    cases List.mem_singleton.mp hsecond
    rfl
  normal := by
    intro path text h
    cases List.mem_singleton.mp h
    decide

/-- A directory with that file and an empty configuration. -/
def disk : FileTable :=
  (({} : FileTable).addFile "Incbuild.toml" []).addFile "src/a.unit" (Text.Utf8.encode "!error no")

def matcher : Matcher :=
  (({} : Config).matcher.toOption).getD ⟨[], none⟩

/-- The project in a directory. -/
def project (table : FileTable) : Loaded FileTable where
  config := {}
  root := "."
  host := { storage := table, root := ".", matcher, outDir := "out", includeInferred := true }

def opened : Program (ProjectHost FileTable) :=
  (project disk).host.opened tree {}

/-- The program at the end of the first run. -/
def last : Program (ProjectHost FileTable) :=
  (Session.drain opened).2

def infoPath : DiskPath :=
  "./.incbuild/buildinfo.json"

/-- The directory after the first run. -/
def later : FileTable :=
  last.host.storage.addFile infoPath (Text.Utf8.encode last.buildInfoText)

theorem config_project (table : FileTable) :
    (project table).config = {} ∧ (project table).host.includeInferred = true :=
  ⟨rfl, rfl⟩

theorem store_project (table : FileTable) : (project table).store = .file ⟨infoPath⟩ := by
  have hpath : DiskPath.join "." ({} : Config).buildInfo = infoPath := by decide
  rw [← hpath]
  rfl

theorem matcher_eq : ({} : Config).matcher = .ok matcher := by
  have hparsed : ({} : Config).matcher.isOk = true := by decide +kernel
  rw [matcher]
  cases hmatcher : ({} : Config).matcher with
  | error e =>
      rw [hmatcher] at hparsed
      cases hparsed
  | ok found => rfl

/-- Both directories are that of the project. -/
theorem ofArguments_eq {table : FileTable} (htable : table ∈ [disk, later]) :
    Loaded.ofArguments {} "." table = .ok (project table) := by
  have hread : ∀ table ∈ [disk, later], Storage.readText table "Incbuild.toml" = .ok "" := by
    decide +kernel
  have hparse : Config.parse "" = .ok {} := by decide +kernel
  have hhost : ({} : Config).host table "." = .ok (project table).host := by
    rw [Config.host, matcher_eq]
    rfl
  have hroot : Loaded.rootOf "." "Incbuild.toml" = "." := by decide
  simp only [Loaded.ofArguments, Loaded.readConfig, hread table htable, hparse, hroot, hhost]
  rfl

/-- Both directories hold the file. -/
theorem takeSnapshot_eq {table : FileTable} (htable : table ∈ [disk, later]) :
    (project table).host.takeSnapshot
      = (.ok tree.snapshot, { (project table).host with units := tree.units }) := by
  have hfound : ∀ table ∈ [disk, later],
      let h := (project table).host
      h.matcher.scanFrom h.storage h.root (Storage.entryCount h.storage + 1) [h.root] []
          = .ok (tree.files.map (·.1))
        ∧ (tree.files.map (·.1)).Pairwise (· ≤ ·)
        ∧ ∀ file ∈ tree.files,
          Storage.readText h.storage (DiskPath.join h.root file.1) = .ok file.2 := by
    decide +kernel
  obtain ⟨hscan, hsorted, hread⟩ := hfound table htable
  exact ProjectHost.takeSnapshot_eq (.of_sorted hscan hsorted hread) ProjectHost.faithful_nil

/-- There is no document before the first run. -/
theorem document_disk : (project disk).document = none := by
  have hmissing : Storage.isFile disk infoPath = false := by decide
  rw [Loaded.document, store_project]
  show (FileStore.load ⟨infoPath⟩ disk).toOption.join = none
  rw [FileStore.load, hmissing]
  rfl

/-- A document that was stored is found. -/
theorem document_addFile (table : FileTable) (text : String) :
    (project (table.addFile infoPath (Text.Utf8.encode text))).document = some text := by
  have hcontent := table.content?_addFile_self infoPath (Text.Utf8.encode text)
  have hload : FileStore.load ⟨infoPath⟩ (table.addFile infoPath (Text.Utf8.encode text))
      = .ok (some text) := by
    simp only [FileStore.load, Storage.isFile, Storage.readText, hcontent, Text.Utf8.decode_encode,
      Option.isSome_some, if_true]
  rw [Loaded.document, store_project]
  show (FileStore.load ⟨infoPath⟩ (table.addFile infoPath _)).toOption.join = _
  rw [hload]
  rfl

theorem save_eq (h : ProjectHost FileTable) (text : String) :
    Store.save (AnyStore.file ⟨infoPath⟩) h text
      = (.ok (), .file ⟨infoPath⟩,
          { h with storage := h.storage.addFile infoPath (Text.Utf8.encode text) }) := rfl

theorem openSession_disk :
    (project disk).openSession false = .ok ⟨opened, .file ⟨infoPath⟩⟩ := by
  have hsnapshot := takeSnapshot_eq (List.mem_cons_self : disk ∈ [disk, later])
  rw [Loaded.openSession_eq, hsnapshot, ← store_project disk]
  show Except.ok (⟨((project disk).starting false tree.snapshot).update tree.snapshot, _⟩ :
    Session (ProjectHost FileTable) AnyStore) = _
  rw [Loaded.starting, document_disk, hsnapshot]
  rfl

/-- The first run finds an error and writes its outputs. -/
theorem drain_opened : ∃ report, Session.drain opened = ((report, none), last)
    ∧ report.EmitsSucceed ∧ report.errorCount = 1 := by
  have hreport : (Session.drain opened).1.1.EmitsSucceed
      ∧ (Session.drain opened).1.1.errorCount = 1 := by decide +kernel
  obtain ⟨report, q, _, hdrain, _⟩ := ProjectHost.drain_update
    (Program.blank { (project disk).host with units := tree.units } {}) tree.snapshot rfl
  have hopened : Session.drain opened = ((report, none), q) := hdrain
  have hlast : last = q := congrArg Prod.snd hopened
  rw [hopened] at hreport
  rw [hlast]
  exact ⟨report, hopened, hreport⟩

theorem disk_mem : disk ∈ [disk, later] :=
  List.mem_cons_self

theorem later_mem : later ∈ [disk, later] :=
  List.mem_cons_of_mem _ List.mem_cons_self

theorem run_eq {table : FileTable} (htable : table ∈ [disk, later]) :
    run {} "." table = buildOnce (project table) false :=
  Loaded.run_eq_buildOnce ⟨rfl, rfl⟩ (ofArguments_eq htable)

/-- The first run leaves its document behind. -/
theorem first_run : ∃ report, (project disk).report? false = some report ∧ report.EmitsSucceed
    ∧ (run {} "." disk).outcome = .ok ⟨1, false⟩ ∧ (run {} "." disk).storage = later := by
  obtain ⟨report, hdrain, hemits, herrors⟩ := drain_opened
  have hcompleted := (Program.drain_eq_iff.mp hdrain).1
  obtain ⟨hreport, hstorage⟩ := Loaded.report?_eq openSession_disk hdrain
    (congrArg Prod.fst (save_eq last.host last.buildInfoText))
  refine ⟨report, hreport, hemits, ?_, ?_⟩
  · rw [run_eq disk_mem, Loaded.outcome_buildOnce hreport, herrors, hcompleted]
  · rw [run_eq disk_mem, hstorage, save_eq, later]

/-- The second run reports nothing. -/
theorem second_run :
    (project later).report? false = some {} ∧ (run {} "." later).outcome = .ok ⟨0, false⟩ := by
  obtain ⟨report, hdrain, hemits, _⟩ := drain_opened
  have hfits : last.buildInfo.Fits := by decide +kernel
  have hstored : (project later).document = some last.buildInfoText := by
    rw [later]
    exact document_addFile last.host.storage last.buildInfoText
  obtain ⟨hconfig, hinferred⟩ := config_project later
  obtain ⟨hconfig', hinferred'⟩ := config_project disk
  have hreport : (project later).report? false = some {} := by
    refine Loaded.report?_again openSession_disk hdrain hemits hfits (hconfig.trans hconfig'.symm)
      (hinferred.trans hinferred'.symm) ?_ hstored fun host text => ?_
    · rw [takeSnapshot_eq disk_mem, takeSnapshot_eq later_mem]
    · rw [store_project, save_eq]
  refine ⟨hreport, ?_⟩
  rw [run_eq later_mem, Loaded.outcome_buildOnce hreport]
  rfl

theorem alike : (project later).Alike (project disk) := by
  constructor
  · rw [takeSnapshot_eq disk_mem, takeSnapshot_eq later_mem]
  · rw [takeSnapshot_eq disk_mem, takeSnapshot_eq later_mem]

end Unfinished

/-- **When exit codes agree.**  Take two runs with the same arguments on the same units, one of them without
a stored document, that come to their ends with emits that succeed.  Neither is cancelled.  The exit code of
the one without a document tells whether some unit has an error; that of the other one tells whether some
unit that it rechecked has an error.  So the two agree if and only if, whenever some unit has an error, one
of those that are rechecked has.  This is the case in a forced run, and when some unit with an error is not
stored at its version. -/
theorem exitCode_agrees_iff {σ : Type} [Storage σ] {arguments : Arguments} {workDir : DiskPath}
    {disk cleanDisk : σ} {l clean : Loaded σ} {report cleanReport : CycleReport}
    (hbuilds : arguments.dryRun = false ∧ arguments.deps = none)
    (hl : Loaded.ofArguments arguments workDir disk = .ok l)
    (hclean : Loaded.ofArguments arguments workDir cleanDisk = .ok clean)
    (halike : l.Alike clean) (hnone : clean.document = none)
    (hreport : l.report? arguments.force = some report)
    (hcleanReport : clean.report? arguments.force = some cleanReport)
    (hemits : report.EmitsSucceed) (hcleanEmits : cleanReport.EmitsSucceed) :
    ∃ o o', (run arguments workDir disk).outcome = .ok o
      ∧ (run arguments workDir cleanDisk).outcome = .ok o'
      ∧ o'.Tells l.Broken ∧ o.Tells (l.Notices report)
      ∧ (o.exitCode = o'.exitCode ↔ (l.Broken → l.Notices report))
      ∧ (arguments.force = true
          ∨ (∃ unit ∈ l.sources, l.Faulty unit.path ∧ l.known.Outdates unit) →
        o.exitCode = o'.exitCode) := by
  have hreports := Loaded.reports hreport
  have hcleanReports := Loaded.reports hcleanReport
  have htells := hreports.tells hemits
  have hall : clean.Notices cleanReport ↔ l.Broken := by
    rw [← halike.broken_iff]
    constructor
    · exact hcleanReports.broken
    · rintro ⟨unit, hunit, hfaulty⟩
      exact hcleanReports.notices hunit hfaulty (Or.inr (Loaded.outdates_of_document_eq_none hnone unit))
  have hcleanTells := (hcleanReports.tells hcleanEmits).congr hall
  have hagree := htells.exitCode_eq_iff hcleanTells
  have hiff : (l.Notices report ↔ l.Broken) ↔ (l.Broken → l.Notices report) :=
    ⟨fun h => h.mpr, fun h => ⟨hreports.broken, h⟩⟩
  rw [hiff] at hagree
  rw [Loaded.run_eq_buildOnce hbuilds hl, Loaded.run_eq_buildOnce hbuilds hclean]
  refine ⟨_, _, Loaded.outcome_buildOnce hreport, Loaded.outcome_buildOnce hcleanReport, hcleanTells,
    htells, hagree, fun hcalled => hagree.mpr fun hbroken => ?_⟩
  rcases hcalled with hforce | ⟨unit, hunit, hfaulty, houtdates⟩
  · obtain ⟨unit, hunit, hfaulty⟩ := hbroken
    exact hreports.notices hunit hfaulty (Or.inl hforce)
  · exact hreports.notices hunit hfaulty (Or.inr houtdates)

/-- A run that finds the document of a run with an error notices nothing, though the project is broken. -/
theorem exitCode_agrees_iff_unfinished :
    ∃ o o', (run {} "." Unfinished.later).outcome = .ok o
      ∧ (run {} "." Unfinished.disk).outcome = .ok o'
      ∧ o'.Tells (Unfinished.project Unfinished.later).Broken
      ∧ o.Tells ((Unfinished.project Unfinished.later).Notices {})
      ∧ o.exitCode ≠ o'.exitCode := by
  obtain ⟨report, hreport, hemits, hfirst, _⟩ := Unfinished.first_run
  obtain ⟨hsecondReport, hsecond⟩ := Unfinished.second_run
  obtain ⟨o, o', hrun, hclean, hbroken, hnotices, _⟩ :=
    exitCode_agrees_iff (show ({} : Arguments).dryRun = false ∧ ({} : Arguments).deps = none from
        ⟨rfl, rfl⟩)
      (Unfinished.ofArguments_eq Unfinished.later_mem) (Unfinished.ofArguments_eq Unfinished.disk_mem)
      Unfinished.alike Unfinished.document_disk hsecondReport hreport (by decide) hemits
  refine ⟨o, o', hrun, hclean, hbroken, hnotices, ?_⟩
  cases hsecond.symm.trans hrun
  cases hfirst.symm.trans hclean
  decide

/-- **Errors of units that are up to date do not count.**  A project with an error is built, and then built
again.  The first run ends with one and the second one with zero, though nothing changed but the document
that is stored. -/
theorem rerun_exits_zero :
    (∃ l clean, Loaded.ofArguments {} "." (run {} "." Unfinished.disk).storage = .ok l
        ∧ Loaded.ofArguments {} "." Unfinished.disk = .ok clean ∧ l.Alike clean ∧ clean.document = none)
      ∧ (∃ o, (run {} "." Unfinished.disk).outcome = .ok o ∧ o.exitCode = 1)
      ∧ ∃ o, (run {} "." (run {} "." Unfinished.disk).storage).outcome = .ok o ∧ o.exitCode = 0 := by
  obtain ⟨_, _, _, hfirst, hstorage⟩ := Unfinished.first_run
  rw [hstorage]
  refine ⟨?_, ⟨_, hfirst, by decide⟩, ⟨_, Unfinished.second_run.2, by decide⟩⟩
  exact ⟨_, _, Unfinished.ofArguments_eq Unfinished.later_mem,
    Unfinished.ofArguments_eq Unfinished.disk_mem, Unfinished.alike, Unfinished.document_disk⟩

end Rebuild
