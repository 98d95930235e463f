import Rebuild.Proofs.History
import Rebuild.Proofs.Project.Footprint
import Rebuild.Proofs.Storage.Listing

/-!
# Reports that fail

A snapshot walks through the project directory and fails when some directory cannot be listed, however deep
it lies.  Nothing was changed until then, neither in the host nor in the program, so a report that fails
might as well not have been made.

* `ProjectHost.reportChanged_eq_error_iff`: a report fails as the scan of its snapshot does;
* `ProjectHost.failed_report_unseen`: a report that fails, and whatever is requested afterwards.
-/

namespace Rebuild

namespace ProjectHost

variable {σ : Type} [Storage σ] {h : ProjectHost σ} {p q : Program (ProjectHost σ)} {dir : DiskPath}
variable {e : Error} {paths : List String}

/-- A snapshot fails as the scan does, and leaves the host as it is. -/
theorem takeSnapshot_eq_error_iff {after : ProjectHost σ} :
    h.takeSnapshot = (.error e, after) ↔ h.matcher.scan h.storage h.root = .error e ∧ after = h := by
  rw [takeSnapshot]
  cases h.matcher.scan h.storage h.root with
  | error e' => simp [eq_comm]
  | ok paths => simp

/-- A report fails as the scan does, and leaves the program as it is. -/
theorem reportChanged_eq_error_iff :
    p.reportChanged paths = (.error e, q)
      ↔ p.host.matcher.scan p.host.storage p.host.root = .error e ∧ q = p := by
  have hsnapshot : Host.snapshot p.host (paths.map UnitPath.normalize) = p.host.takeSnapshot := rfl
  rw [Program.reportChanged, hsnapshot]
  rcases htake : p.host.takeSnapshot with ⟨outcome, after⟩
  cases outcome with
  | error e' =>
      obtain ⟨hscan, rfl⟩ := takeSnapshot_eq_error_iff.mp htake
      rw [hscan]
      constructor
      · rintro ⟨⟩
        exact ⟨rfl, rfl⟩
      · rintro ⟨⟨⟩, rfl⟩
        rfl
  | ok snapshot =>
      constructor
      · rintro ⟨⟩
      · rintro ⟨hscan, _⟩
        have hfails := takeSnapshot_eq_error_iff.mpr ⟨hscan, rfl⟩
        rw [htake] at hfails
        cases hfails

/-- **A failed report is unseen.**  In every program of a project, a report of any paths fails exactly when
the walk comes to a directory, however deep it lies, that cannot be listed, and then for the same reason.
Where walks are bounded, as in all file tables and file trees that came about by adding and removing files,
this means that a report fails exactly when some directory below the root cannot be listed.  A report that
fails leaves the whole program as it is, with its host and the units that the host has read.  So whatever is
requested afterwards, each request has the result, and leads to the program, that it has and leads to when the
report is not made. -/
theorem failed_report_unseen (p : Program (ProjectHost σ)) (paths : List String) (e : Error) :
    ((p.reportChanged paths).1 = .error e
        ↔ ∃ dir, Storage.Visits p.host.storage p.host.root dir ∧ Storage.list p.host.storage dir = .error e)
      ∧ (Storage.Bounded p.host.storage p.host.root →
        ((∃ e, (p.reportChanged paths).1 = .error e)
          ↔ ∃ dir e, Storage.Below p.host.storage p.host.root dir
            ∧ Storage.list p.host.storage dir = .error e))
      ∧ ((p.reportChanged paths).1 = .error e →
        (p.reportChanged paths).2 = p
          ∧ ∀ later, Request.trace (.report paths :: later) p
            = (some (.report (.error e)), p) :: Request.trace later p) := by
  have hfails : ∀ e, (p.reportChanged paths).1 = .error e ↔ p.reportChanged paths = (.error e, p) := by
    intro e
    constructor
    · intro hfirst
      have hreport : p.reportChanged paths = (.error e, (p.reportChanged paths).2) := by rw [← hfirst]
      rw [hreport, (reportChanged_eq_error_iff.mp hreport).2]
    · intro hreport
      rw [hreport]
  have hscan : ∀ e, (p.reportChanged paths).1 = .error e
      ↔ p.host.matcher.scan p.host.storage p.host.root = .error e := by
    intro e
    rw [hfails, reportChanged_eq_error_iff]
    exact and_iff_left rfl
  refine ⟨?_, fun hbounded => ?_, fun hfirst => ?_⟩
  · rw [hscan]
    exact Matcher.scan_eq_error_iff p.host.matcher
  · simp only [hscan]
    exact Matcher.exists_scan_eq_error_iff p.host.matcher hbounded
  · have hreport := (hfails e).mp hfirst
    have hstays : (p.reportChanged paths).2 = p := by rw [hreport]
    refine ⟨hstays, fun later => ?_⟩
    rw [Request.trace, Request.outcome?, Request.run, hfirst, hstays]

end ProjectHost

/-! ### A directory that gets locked -/

/-- Files in memory, with directories that cannot be listed. -/
structure Guarded where
  table : FileTable
  locked : List DiskPath := []

instance : Storage Guarded where
  readText s := Storage.readText s.table
  openFile s := Storage.openFile s.table
  write s path content :=
    match Storage.write s.table path content with
    | (outcome, table) => (outcome, { s with table })
  remove s path :=
    match Storage.remove s.table path with
    | (outcome, table) => (outcome, { s with table })
  present s := Storage.present s.table
  isFile s := Storage.isFile s.table
  isDir s := Storage.isDir s.table
  list s path := if path ∈ s.locked then .error .io else Storage.list s.table path
  entryCount s := Storage.entryCount s.table

namespace Guarded

def files : ProjectHost FileTable :=
  .ofFiles [("a", Text.Utf8.encode "export fn f int"), ("sub/deep/x", Text.Utf8.encode "import a")] true

def host : ProjectHost Guarded where
  storage := ⟨files.storage, []⟩
  root := files.root
  matcher := files.matcher
  outDir := files.outDir
  includeInferred := files.includeInferred

/-- A directory deep in the project is locked. -/
def lock (h : ProjectHost Guarded) : ProjectHost Guarded :=
  { h with storage := { h.storage with locked := ["p/sub/deep"] } }

theorem scan_host : host.matcher.scan host.storage host.root = .ok ["a", "sub/deep/x"] := by
  have hfound : host.matcher.scanFrom host.storage host.root (Storage.entryCount host.storage + 1)
      [host.root] [] = .ok ["a", "sub/deep/x"] := by
    decide +kernel
  exact Matcher.scan_of_sorted hfound (by decide)

variable {g : Guarded} {root dir : DiskPath} {names : List String}

theorem list_table {paths : List DiskPath} (hlist : Storage.list g dir = .ok paths) :
    Storage.list g.table dir = .ok paths := by
  simp only [Storage.list] at hlist ⊢
  split at hlist
  · cases hlist
  · exact hlist

theorem leads_table (hlead : Storage.Leads g root names) : Storage.Leads g.table root names := by
  induction hlead with
  | here => exact .here
  | into _ holds hdir ih =>
      obtain ⟨hname, paths, hlist, hmem⟩ := holds
      exact .into ih ⟨hname, paths, list_table hlist, hmem⟩ hdir

/-- Locks do not make a walk longer. -/
theorem bounded (h : FileTable.Linked g.table []) (hroot : Storage.isDir g.table root = true) :
    Storage.Bounded g root := by
  have hlists : Storage.ListsNames g := by
    intro dir paths hlist
    exact h.listsNames dir paths (list_table hlist)
  obtain ⟨dirs, hlength, hdirs⟩ := h.exists_dirs hroot
  refine Storage.bounded_of_leads hlists (fun names hlead => hdirs names (leads_table hlead)) ?_
  exact hlength.le.trans (Nat.le_succ _)

/-- A directory that cannot be listed is locked. -/
theorem eq_io_of_below {e : Error} (hroot : Storage.isDir g root = true) (hbelow : Storage.Below g root dir)
    (hfails : Storage.list g dir = .error e) : e = .io := by
  have hdir : Storage.isDir g.table dir = true := by
    rcases Relation.ReflTransGen.cases_tail hbelow with rfl | ⟨_, _, _, _, _, hdir⟩
    · exact hroot
    · exact hdir
  obtain ⟨children, hfound⟩ := FileTable.isDir_iff.mp hdir
  have htable := FileTable.list_eq hfound
  simp only [Storage.list] at hfails htable
  split at hfails
  · exact (Except.error.inj hfails).symm
  · rw [htable] at hfails
    cases hfails

theorem linked_files : FileTable.Linked files.storage [] := by
  have hfirst : FileTable.Reached (({} : FileTable).addFile "p/a" (Text.Utf8.encode "export fn f int")) :=
    .add _ .new (by decide)
  have hfiles : files.storage = (({} : FileTable).addFile "p/a" (Text.Utf8.encode "export fn f int")).addFile
      "p/sub/deep/x" (Text.Utf8.encode "import a") := by
    decide +kernel
  rw [hfiles]
  exact (FileTable.Reached.add _ hfirst (by decide)).linked

theorem below_locked : Storage.Below (lock host).storage (lock host).root "p/sub/deep" := by
  have hlists : Storage.list (lock host).storage "p" = .ok ["p/a", "p/sub"]
      ∧ Storage.list (lock host).storage "p/sub" = .ok ["p/sub/deep"]
      ∧ Storage.isDir (lock host).storage "p/sub" = true
      ∧ Storage.isDir (lock host).storage "p/sub/deep" = true := by
    decide +kernel
  obtain ⟨htop, hsub, hdir, hdir'⟩ := hlists
  have hfirst : Storage.Below (lock host).storage "p" "p/sub" :=
    .single ⟨_, htop, List.mem_cons_of_mem _ List.mem_cons_self, hdir⟩
  exact hfirst.tail ⟨_, hsub, List.mem_cons_self, hdir'⟩

end Guarded

/-- After a start, a directory deep in the project is locked; a report fails, and the check that is pulled
then is that of the round that was started. -/
theorem ProjectHost.failed_report_unseen_locked :
    ∃ p, Program.start Guarded.host {} none = .ok p
      ∧ (Request.run (.edit Guarded.lock) p).reportChanged ["a"]
        = (.error .io, Request.run (.edit Guarded.lock) p)
      ∧ Request.trace [.report ["a"], .check] (Request.run (.edit Guarded.lock) p)
        = (some (.report (.error .io)), Request.run (.edit Guarded.lock) p)
          :: Request.trace [.check] (Request.run (.edit Guarded.lock) p) := by
  obtain ⟨snapshot, after, htake⟩ := exists_takeSnapshot Guarded.scan_host
  refine ⟨_, Program.start_eq_ok_iff.mpr ⟨after, snapshot, htake, rfl⟩, ?_⟩
  generalize hp : Request.run (.edit Guarded.lock) ((Program.prior after {} none).update snapshot) = p
  obtain ⟨_, _, hafter⟩ := eq_of_takeSnapshot htake
  have hdisk : p.host.storage = (Guarded.lock Guarded.host).storage ∧ p.host.root = "p" := by
    rw [← hp, hafter]
    exact ⟨rfl, rfl⟩
  have hroot : Storage.isDir (Guarded.lock Guarded.host).storage "p" = true := by decide +kernel
  have hbounded : Storage.Bounded p.host.storage p.host.root := by
    rw [hdisk.1, hdisk.2]
    exact Guarded.bounded Guarded.linked_files hroot
  have hbelow : Storage.Below p.host.storage p.host.root "p/sub/deep" := by
    rw [hdisk.1, hdisk.2]
    exact Guarded.below_locked
  have hlocked : Storage.list p.host.storage "p/sub/deep" = .error .io := by
    rw [hdisk.1]
    rfl
  -- the report fails because of that directory, so for the reason that it is locked
  obtain ⟨_, hdeep, _⟩ := failed_report_unseen p ["a"] .io
  obtain ⟨e, hfirst⟩ := (hdeep hbounded).mpr ⟨"p/sub/deep", .io, hbelow, hlocked⟩
  obtain ⟨hfails, _, hunseen⟩ := failed_report_unseen p ["a"] e
  obtain ⟨dir, hvisit, hlist⟩ := hfails.mp hfirst
  have hreason : e = .io := by
    have hthere := hvisit.below
    rw [hdisk.1, hdisk.2] at hthere
    rw [hdisk.1] at hlist
    exact Guarded.eq_io_of_below hroot hthere hlist
  subst hreason
  obtain ⟨hstays, hlater⟩ := hunseen hfirst
  exact ⟨Prod.ext hfirst hstays, hlater [.check]⟩

end Rebuild
