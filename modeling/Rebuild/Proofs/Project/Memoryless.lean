import Rebuild.Proofs.Project.Answers
import Rebuild.Proofs.Project.Footprint
import Rebuild.Proofs.Recorded

/-!
# A host has no memory

A host keeps the units of its latest snapshot, and takes the contents of a unit over when its text is still
the same.  What it keeps makes no difference: after a snapshot it is in the state of a new host that takes
its first one, whatever was edited, asked and refused before.

* `HostCall.ask`: what a host answers to a request;
* `ProjectHost.Event`: what may happen to a host, its requests and the edits of its files;
* `ProjectHost.faithful_after`: contents that are kept are always what their texts say;
* `ProjectHost.takeSnapshot_forgets`: a snapshot with and without what is kept;
* `ProjectHost.snapshot_memoryless`: after any events, a snapshot makes a host a new one.
-/

namespace Rebuild

/-- The answer to a request. -/
inductive HostAnswer where
  | snapshot (answer : Except Error Snapshot)
  | check (answer : CheckReply)
  | interface (answer : Except Error Interface)
  | emit (answer : Except Error EmitOutput)

/-- Make a request of a host. -/
def HostCall.ask {η : Type} [Host η] (h : η) : HostCall → HostAnswer × η
  | .snapshot changed => (.snapshot (Host.snapshot h changed).1, (Host.snapshot h changed).2)
  | .check unit => (.check (Host.check h unit).1, (Host.check h unit).2)
  | .interface unit => (.interface (Host.interface h unit).1, (Host.interface h unit).2)
  | .emit unit kind => (.emit (Host.emit h unit kind).1, (Host.emit h unit kind).2)

namespace ProjectHost

variable {σ : Type} [Storage σ] {h base : ProjectHost σ} {s : σ} {root : DiskPath} {known : Units}
variable {path : UnitPath} {paths : List UnitPath}

/-! ### What happens to a host -/

/-- What may happen to a host. -/
inductive Event (σ : Type) where
  /-- Its files are changed. -/
  | edit (change : σ → σ)
  | call (request : HostCall)

/-- The answer to an event, if it is a request, and the host after it. -/
def happen (h : ProjectHost σ) : Event σ → Option HostAnswer × ProjectHost σ
  | .edit change => (none, { h with storage := change h.storage })
  | .call request => (some (request.ask h).1, (request.ask h).2)

def after (h : ProjectHost σ) (events : List (Event σ)) : ProjectHost σ :=
  events.foldl (fun h event => (h.happen event).2) h

/-- The answers to the requests among several events, in order. -/
def replies (h : ProjectHost σ) : List (Event σ) → List HostAnswer
  | [] => []
  | event :: events => (h.happen event).1.toList ++ (h.happen event).2.replies events

/-- A new host with the configuration of another one, over a storage. -/
def renewed (base : ProjectHost σ) (storage : σ) : ProjectHost σ :=
  { base with storage, units := [] }

/-! ### What is kept -/

/-- Only a snapshot that succeeds changes the table of a host, and nothing changes its configuration. -/
theorem happen_cases (h : ProjectHost σ) (event : Event σ) :
    (∃ disk, (h.happen event).2 = h.onDisk disk)
      ∨ ∃ snapshot, h.takeSnapshot = (.ok snapshot, (h.happen event).2) := by
  cases event with
  | edit change => exact .inl ⟨change h.storage, rfl⟩
  | call request =>
      cases request with
      | snapshot changed =>
          show (∃ disk, h.takeSnapshot.2 = h.onDisk disk)
            ∨ ∃ snapshot, h.takeSnapshot = (.ok snapshot, h.takeSnapshot.2)
          cases hscan : h.matcher.scan h.storage h.root with
          | error e =>
              rw [takeSnapshot, hscan]
              exact .inl ⟨h.storage, rfl⟩
          | ok paths =>
              obtain ⟨snapshot, after, htake⟩ := exists_takeSnapshot hscan
              rw [htake]
              exact .inr ⟨snapshot, rfl⟩
      | check unit =>
          refine .inl ⟨h.storage, ?_⟩
          show (Host.check h unit).2 = h
          simp only [Host.check]
          cases h.readable unit with
          | error e => rfl
          | ok found => rfl
      | interface unit =>
          refine .inl ⟨h.storage, ?_⟩
          show (Host.interface h unit).2 = h
          simp only [Host.interface]
          cases h.readable unit with
          | error e => rfl
          | ok found => rfl
      | emit unit kind => exact .inl (emitUnit_storage h unit kind)

/-- One event leaves the contents that are kept to be what their texts say. -/
theorem Faithful.happen (hknown : Faithful h.units) (event : Event σ) : Faithful (h.happen event).2.units := by
  rcases h.happen_cases event with ⟨disk, hafter⟩ | ⟨snapshot, htake⟩
  · rw [hafter]
    exact hknown
  · exact hknown.takeSnapshot htake

/-- **Contents that are kept are those of their texts**, after any events. -/
theorem faithful_after (hknown : Faithful h.units) (events : List (Event σ)) :
    Faithful (h.after events).units := by
  induction events generalizing h with
  | nil => exact hknown
  | cons event events ih => exact ih (hknown.happen event)

/-- The configuration of a host stays as it is. -/
theorem renewed_after (h : ProjectHost σ) (events : List (Event σ)) (storage : σ) :
    (h.after events).renewed storage = h.renewed storage := by
  induction events generalizing h with
  | nil => rfl
  | cons event events ih =>
      show ((h.happen event).2.after events).renewed storage = _
      rw [ih]
      rcases h.happen_cases event with ⟨disk, hafter⟩ | ⟨snapshot, htake⟩
      · rw [hafter]
        rfl
      · obtain ⟨_, _, hafter⟩ := eq_of_takeSnapshot htake
        rw [hafter]
        rfl

/-! ### Snapshots without memory -/

/-- A unit and its version are loaded from its file alone. -/
theorem load_forgets (hknown : Faithful known) (file : DiskPath) :
    load s file (known.lookup path) = load s file none := by
  cases hread : Storage.readText s file with
  | error e => rw [load, load, hread]
  | ok text =>
      have hnone : ∀ unit, (none : Option LoadedUnit) = some unit → unit.unreadable = none →
          unit.contents = Source.Contents.parse unit.text := by
        intro unit hunit
        cases hunit
      rw [load_eq hread (hknown path), load_eq hread hnone]

theorem loadAll_forgets (hknown : Faithful known) (paths : List UnitPath) :
    loadAll s root known paths = loadAll s root [] paths := by
  induction paths generalizing known with
  | nil => rfl
  | cons path paths ih =>
      rw [loadAll, loadAll, load_forgets hknown, ih (hknown.filter path)]
      rfl

/-- **A snapshot forgets what the host knew.**  It is the one that the host takes without its table, and when
it succeeds, it leaves the host in the same state. -/
theorem takeSnapshot_forgets (hknown : Faithful h.units) :
    h.takeSnapshot.1 = (h.renewed h.storage).takeSnapshot.1
      ∧ ∀ snapshot after, h.takeSnapshot = (.ok snapshot, after) →
        (h.renewed h.storage).takeSnapshot = (.ok snapshot, after) := by
  have hscan : (h.renewed h.storage).matcher.scan (h.renewed h.storage).storage (h.renewed h.storage).root
      = h.matcher.scan h.storage h.root := rfl
  rw [takeSnapshot, takeSnapshot, hscan]
  cases h.matcher.scan h.storage h.root with
  | error e =>
      refine ⟨rfl, fun snapshot after htake => ?_⟩
      cases htake
  | ok paths =>
      simp only [loadAll_forgets hknown]
      exact ⟨rfl, fun snapshot after htake => htake⟩

theorem storage_snapshot (h : ProjectHost σ) (changed : List UnitPath) :
    (Host.snapshot h changed).2.storage = h.storage := by
  show h.takeSnapshot.2.storage = h.storage
  rw [takeSnapshot]
  split
  · rfl
  · rfl

/-- **Every snapshot is like a first one.**  Take a new host of any project, and let anything happen to it:
edits of its files, snapshots that succeed and snapshots that fail, checks, interfaces and emits.  A snapshot
then has the answer that a new host with the same configuration gets for its first one over the same files.
When it succeeds, both hosts are in the same state, so they answer alike to whatever is asked later, up to
the next snapshot and beyond; and each unit that the host has is what its file says now, or why it cannot be
read. -/
theorem snapshot_memoryless (base : ProjectHost σ) (start : σ) (events : List (Event σ)) {h : ProjectHost σ}
    (hh : h = (base.renewed start).after events) :
    h.takeSnapshot.1 = (base.renewed h.storage).takeSnapshot.1
      ∧ ∀ snapshot after, h.takeSnapshot = (.ok snapshot, after) →
        (base.renewed h.storage).takeSnapshot = (.ok snapshot, after)
          ∧ (∀ later, after.replies later = (base.renewed h.storage).takeSnapshot.2.replies later)
          ∧ ∀ path unit, after.units.lookup path = some unit →
            unit = .ofRead (Storage.readText h.storage (DiskPath.join base.root path)) := by
  have hknown : Faithful h.units := hh ▸ faithful_after faithful_nil events
  have hnew : h.renewed h.storage = base.renewed h.storage := by
    rw [hh, renewed_after]
    rfl
  have hroot : (h.renewed h.storage).root = (base.renewed h.storage).root := congrArg ProjectHost.root hnew
  obtain ⟨hsame, hlater⟩ := takeSnapshot_forgets hknown
  rw [hnew] at hsame hlater
  refine ⟨hsame, fun snapshot after htake => ?_⟩
  have hfirst := hlater snapshot after htake
  refine ⟨hfirst, fun later => by rw [hfirst], fun path unit hunit => ?_⟩
  rw [lookup_takeSnapshot hknown htake] at hunit
  obtain ⟨read, hread, rfl⟩ := Option.map_eq_some_iff.mp hunit
  rw [fileAt] at hread
  split at hread
  · cases hread
  · split at hread
    · cases hread
      rw [show h.root = base.root from hroot]
    · cases hread

end ProjectHost

/-! ### A file that comes and goes -/

namespace Rewritten

def write (path : DiskPath) (content : List UInt8) : ProjectHost.Event FileTable :=
  .edit fun table => table.addFile path content

def remove (path : DiskPath) : ProjectHost.Event FileTable :=
  .edit fun table => (Storage.remove table path).2

def look : ProjectHost.Event FileTable :=
  .call (.snapshot [])

def first : List UInt8 := Text.Utf8.encode "export fn f int"

/-- The directory is not there at first, so a snapshot fails.  Then a file is written, becomes unreadable and
readable again, and has another text; it is removed and comes back with its first text, and with it a
second file whose name is read as the same path. -/
def events : List (ProjectHost.Event FileTable) :=
  [look, write "p/a" first, look, write "p/a" [255], look, write "p/a" (Text.Utf8.encode "let x = 1"), look,
    remove "p/a", look, write "p/a" first, write "p/ a" [255]]

/-- A project that is still empty. -/
def base : ProjectHost FileTable := .ofFiles [] true

def files : FileTable :=
  let table : FileTable := ((({} : FileTable).addFile "p/a" first).addFile "p/a" [255]).addFile "p/a"
    (Text.Utf8.encode "let x = 1")
  ((Storage.remove table "p/a").2.addFile "p/a" first).addFile "p/ a" [255]

def host : ProjectHost FileTable :=
  (base.renewed {}).after events

theorem storage_host : host.storage = files := by
  simp only [host, events, look, write, remove, ProjectHost.after, ProjectHost.happen, HostCall.ask,
    List.foldl_cons, List.foldl_nil, ProjectHost.storage_snapshot]
  rfl

theorem scan_host : host.matcher.scan host.storage host.root = .ok ["a", "a"] := by
  have hfound : base.matcher.scanFrom files base.root (Storage.entryCount files + 1) [base.root] []
      = .ok ["a", "a"] := by
    decide +kernel
  have hbase : host.renewed files = (base.renewed {}).renewed files :=
    ProjectHost.renewed_after _ events files
  have hmatcher : (host.renewed files).matcher = base.matcher := by rw [hbase]; rfl
  have hroot : (host.renewed files).root = base.root := by rw [hbase]; rfl
  rw [storage_host, show host.matcher = base.matcher from hmatcher, show host.root = base.root from hroot]
  exact Matcher.scan_of_sorted hfound (by decide)

end Rewritten

/-- After all that, a snapshot reads the unit, which two files stand for, as a new host does. -/
theorem ProjectHost.snapshot_memoryless_rewritten :
    ∃ snapshot after, Rewritten.host.takeSnapshot = (.ok snapshot, after)
      ∧ (Rewritten.base.renewed Rewritten.files).takeSnapshot = (.ok snapshot, after)
      ∧ after.units.lookup "a" = some (.ofText "export fn f int") := by
  obtain ⟨snapshot, after, htake⟩ := exists_takeSnapshot Rewritten.scan_host
  obtain ⟨_, hall⟩ := snapshot_memoryless Rewritten.base {} Rewritten.events (h := Rewritten.host) rfl
  obtain ⟨hfirst, _, hunits⟩ := hall snapshot after htake
  rw [Rewritten.storage_host] at hfirst hunits
  refine ⟨snapshot, after, htake, hfirst, ?_⟩
  have hread : Storage.readText Rewritten.files (DiskPath.join Rewritten.base.root "a")
      = .ok "export fn f int" := by
    decide +kernel
  have hknown : Faithful Rewritten.host.units := faithful_after faithful_nil Rewritten.events
  have hlookup := lookup_takeSnapshot hknown htake "a"
  rw [fileAt_of_scan Rewritten.scan_host, if_pos List.mem_cons_self] at hlookup
  obtain ⟨unit, hunit⟩ : ∃ unit, after.units.lookup "a" = some unit := ⟨_, hlookup⟩
  rw [hunit, hunits "a" unit hunit, hread]
  rfl

end Rebuild
