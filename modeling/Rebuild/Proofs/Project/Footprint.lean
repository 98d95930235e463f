import Rebuild.Proofs.Project.Tree
import Rebuild.Storage.FileTable

/-!
# What the answers about a unit depend on

A snapshot reads every file of a project, but what a host says about a unit depends on few of them: its own
text and those of the units that it mentions, directly or indirectly.  No other file makes a difference,
readable or not, there or not.

* `ProjectHost.fileAt`: what a project has at a path;
* `ProjectHost.lookup_takeSnapshot`: the units of a snapshot are those files, whatever the host knew before;
* `ProjectHost.Shares`: a set of units that two tables have in common and that mention no others;
* `ProjectHost.emit_eq_writeFiles`: an emit decides what to write, and writes it;
* `ProjectHost.answers_of_edges`: two projects that agree on such a set give the same answers about it.
-/

namespace Rebuild

/-- A unit from what reading its file gives. -/
def LoadedUnit.ofRead : Except Error String → LoadedUnit
  | .ok text => .ofText text
  | .error e => ⟨"", {}, some e.message⟩

namespace ProjectHost

variable {σ σ' : Type} [Storage σ] [Storage σ']
variable {h after : ProjectHost σ} {h' after' : ProjectHost σ'} {s : σ} {root : DiskPath}
variable {units units' known : Units} {path : UnitPath} {paths : List UnitPath} {snapshot : Snapshot}
variable {kind : EmitKind}

/-! ### The files of a project -/

/-- What a project has at a path: nothing when the scan finds no unit there, and what reading the file gives
otherwise. -/
def fileAt (h : ProjectHost σ) (path : UnitPath) : Option (Except Error String) :=
  match h.matcher.scan h.storage h.root with
  | .error _ => none
  | .ok paths =>
      if path ∈ paths then some (Storage.readText h.storage (DiskPath.join h.root path)) else none

theorem fileAt_of_scan (hscan : h.matcher.scan h.storage h.root = .ok paths) (path : UnitPath) :
    h.fileAt path
      = if path ∈ paths then some (Storage.readText h.storage (DiskPath.join h.root path)) else none := by
  rw [fileAt, hscan]

/-- A unit is loaded from its file alone. -/
theorem load_eq_ofRead (hknown : Faithful known) (file : DiskPath) :
    (load s file (known.lookup path)).1 = .ofRead (Storage.readText s file) := by
  cases hread : Storage.readText s file with
  | error e => rw [load, hread, LoadedUnit.ofRead]
  | ok text => rw [load_eq hread (hknown path), LoadedUnit.ofRead]

theorem loadAll_eq_ofRead (hknown : Faithful known) (paths : List UnitPath) :
    (loadAll s root known paths).map (fun unit => (unit.1, unit.2.1))
      = paths.map fun path => (path, .ofRead (Storage.readText s (DiskPath.join root path))) := by
  induction paths generalizing known with
  | nil => rfl
  | cons path paths ih =>
      rw [loadAll, List.map_cons, List.map_cons, load_eq_ofRead hknown, ih (hknown.filter path)]

/-- A path may be put into a table several times, as the same unit. -/
theorem lookup_foldl_putUnit (unitAt : UnitPath → LoadedUnit) (paths : List UnitPath) (path : UnitPath) :
    ((paths.map fun path => (path, unitAt path)).foldl putUnit []).lookup path
      = if path ∈ paths then some (unitAt path) else none := by
  have hput : ∀ unit, (path, unit) ∈ paths.map (fun path => (path, unitAt path))
      ↔ path ∈ paths ∧ unit = unitAt path := by
    intro unit
    simp only [List.mem_map, Prod.mk.injEq]
    grind
  by_cases hmem : path ∈ paths
  · have hsome : (((paths.map fun path => (path, unitAt path)).foldl putUnit []).lookup path).isSome = true :=
      isSome_lookup_foldl (Or.inl ((hput _).mpr ⟨hmem, rfl⟩))
    obtain ⟨unit, hunit⟩ := Option.isSome_iff_exists.mp hsome
    have hsame := ((hput unit).mp ((mem_of_lookup_foldl hunit).resolve_right nofun)).2
    rw [hunit, hsame, if_pos hmem]
  · rw [if_neg hmem, Option.eq_none_iff_forall_ne_some]
    intro unit hunit
    exact hmem ((hput unit).mp ((mem_of_lookup_foldl hunit).resolve_right nofun)).1

/-- A snapshot succeeds when the scan does. -/
theorem exists_takeSnapshot (hscan : h.matcher.scan h.storage h.root = .ok paths) :
    ∃ snapshot after, h.takeSnapshot = (.ok snapshot, after) := by
  rw [takeSnapshot, hscan]
  exact ⟨_, _, rfl⟩

/-- A snapshot changes nothing but the table of units. -/
theorem eq_of_takeSnapshot (htake : h.takeSnapshot = (.ok snapshot, after)) :
    ∃ paths, h.matcher.scan h.storage h.root = .ok paths
      ∧ after = { h with
          units := ((loadAll h.storage h.root h.units paths).map fun unit => (unit.1, unit.2.1)).foldl
            putUnit [] } := by
  rw [takeSnapshot] at htake
  split at htake
  · cases htake
  · rename_i paths hscan
    cases htake
    exact ⟨paths, hscan, rfl⟩

/-- **A host has read the files of its project.**  What it knew before makes no difference. -/
theorem lookup_takeSnapshot (hknown : Faithful h.units) (htake : h.takeSnapshot = (.ok snapshot, after))
    (path : UnitPath) : after.units.lookup path = (h.fileAt path).map .ofRead := by
  obtain ⟨paths, hscan, rfl⟩ := eq_of_takeSnapshot htake
  rw [loadAll_eq_ofRead hknown, lookup_foldl_putUnit, fileAt_of_scan hscan]
  split
  · rfl
  · rfl

/-- After a snapshot a host knows what the texts say, as before. -/
theorem Faithful.takeSnapshot (hknown : Faithful h.units)
    (htake : h.takeSnapshot = (.ok snapshot, after)) : Faithful after.units := by
  intro path unit hunit hreadable
  rw [lookup_takeSnapshot hknown htake] at hunit
  obtain ⟨read, _, rfl⟩ := Option.map_eq_some_iff.mp hunit
  cases read with
  | ok text => rfl
  | error e => cases hreadable

/-! ### Emits -/

/-- Write files for a unit, unless there is a reason not to. -/
def writeFiles (h : ProjectHost σ) (path : UnitPath) :
    Except Error (List (DiskPath × String)) → Except Error EmitOutput × ProjectHost σ
  | .error e => (.error e, h)
  | .ok files =>
      match writeAll path files h.storage with
      | (.error e, storage) => (.error e, { h with storage })
      | (.ok written, storage) => (.ok ⟨written, []⟩, { h with storage })

omit [Storage σ] in
/-- The files that an emit writes, or why it writes none. -/
def filesOf (h : ProjectHost σ) (path : UnitPath) (kind : EmitKind) :
    Except Error (List (DiskPath × String)) :=
  (h.readable path).map fun unit => h.outputs path unit kind

/-- **An emit is decided before it writes.** -/
theorem emit_eq_writeFiles (h : ProjectHost σ) (path : UnitPath) (kind : EmitKind) :
    Host.emit h path kind = h.writeFiles path (h.filesOf path kind) := by
  show h.emitUnit path kind = _
  rw [emitUnit, filesOf]
  cases h.readable path with
  | error e => rfl
  | ok unit => rfl

/-! ### Units in common -/

omit [Storage σ] in
theorem lookup_of_readable {unit : LoadedUnit} (h' : h.readable path = .ok unit) :
    h.units.lookup path = some unit := by
  rw [readable] at h'
  split at h'
  · cases h'
  · rename_i found hfound
    split at h'
    · cases h'
    · cases h'
      exact hfound

/-- Two tables have the units of `R` in common, and these mention no others. -/
structure Shares (units units' : Units) (R : UnitPath → Prop) : Prop where
  lookup_eq : ∀ path, R path → units.lookup path = units'.lookup path
  mentions : ∀ path unit, R path → units.lookup path = some unit →
    ∀ other ∈ unit.contents.mentions, R other

namespace Shares

variable {R : UnitPath → Prop}

theorem interfaceOf_eq (hshares : Shares units units' R) (hpath : R path) :
    interfaceOf units path = interfaceOf units' path := by
  refine interfaceFrom_congr (fun path unit hpath hunit source hsource => ?_) hshares.lookup_eq
    (fun _ _ => Iff.rfl) hpath
  exact hshares.mentions path unit hpath hunit source (mem_mentions_of_mem_takesFrom hsource)

theorem has_eq (hshares : Shares units units' R) (hpath : R path) : has units path = has units' path := by
  rw [has, has, hshares.lookup_eq path hpath]

theorem exportsMember_eq (hshares : Shares units units' R) (hpath : R path) (member : String) :
    exportsMember units path member = exportsMember units' path member := by
  rw [exportsMember, exportsMember, hshares.interfaceOf_eq hpath]

variable (hshares : Shares h.units h'.units R)
include hshares

omit [Storage σ] [Storage σ'] in
theorem readable_eq (hpath : R path) : h.readable path = h'.readable path := by
  rw [readable, readable, hshares.lookup_eq path hpath]

theorem check_eq (hpath : R path) : (Host.check h path).1 = (Host.check h' path).1 := by
  have hreadable := hshares.readable_eq hpath
  simp only [Host.check, ← hreadable]
  cases hunit : h.readable path with
  | error e => rfl
  | ok unit =>
      have hmentions := hshares.mentions path unit hpath (lookup_of_readable hunit)
      have hcontents : checkContents h.units path unit.contents = checkContents h'.units path unit.contents :=
        checkContents_congr (fun other hother => hshares.has_eq (hmentions other hother))
          fun read _ hmention => hshares.exportsMember_eq (hmentions read.1 hmention) read.2
      simp only [hcontents]

theorem interface_eq (hpath : R path) : (Host.interface h path).1 = (Host.interface h' path).1 := by
  have hreadable := hshares.readable_eq hpath
  simp only [Host.interface, ← hreadable, ← hshares.interfaceOf_eq hpath]
  cases h.readable path with
  | error e => rfl
  | ok unit => rfl

omit [Storage σ] [Storage σ'] in
theorem filesOf_eq (hroot : h.root = h'.root) (hout : h.outDir = h'.outDir) (hpath : R path) :
    h.filesOf path kind = h'.filesOf path kind := by
  have houtput : ∀ kind, h.outputPath path kind = h'.outputPath path kind := by
    intro kind
    simp only [outputPath, hroot, hout]
  have houtputs : ∀ unit, h.outputs path unit kind = h'.outputs path unit kind := by
    intro unit
    simp only [outputs, houtput, hshares.interfaceOf_eq hpath]
  rw [filesOf, filesOf, hshares.readable_eq hpath]
  simp only [houtputs]

end Shares

/-- **A host reads what its edges declare.**  Take two projects with the same root and the same output
directory, each after a snapshot, and a set `R` of paths such that a text at a path of `R` imports,
republishes and infers from units of `R` only.  Where the two projects agree on `R`, with the same texts, the
same failures to read and the same gaps, checks and interfaces of the units of `R` are the same, and an emit
writes the same files with the same texts, or fails for the same reason before it writes.  Whatever else the
projects have, which files they accept, what their hosts knew before and what their policies are makes no
difference. -/
theorem answers_of_edges (hroot : h.root = h'.root) (hout : h.outDir = h'.outDir)
    (hknown : Faithful h.units) (hknown' : Faithful h'.units) {snapshot' : Snapshot}
    (htake : h.takeSnapshot = (.ok snapshot, after)) (htake' : h'.takeSnapshot = (.ok snapshot', after'))
    {R : UnitPath → Prop}
    (hedges : ∀ path text, R path → h.fileAt path = some (.ok text) →
      ∀ other ∈ (Source.Contents.parse text).mentions, R other)
    (hagree : ∀ path, R path → h.fileAt path = h'.fileAt path) (hpath : R path) :
    (Host.check after path).1 = (Host.check after' path).1
      ∧ (Host.interface after path).1 = (Host.interface after' path).1
      ∧ ∀ kind, Host.emit after path kind = after.writeFiles path (after.filesOf path kind)
        ∧ Host.emit after' path kind = after'.writeFiles path (after.filesOf path kind) := by
  have hshares : Shares after.units after'.units R := by
    refine ⟨fun path hpath => ?_, fun path unit hpath hunit other hother => ?_⟩
    · rw [lookup_takeSnapshot hknown htake, lookup_takeSnapshot hknown' htake', hagree path hpath]
    · rw [lookup_takeSnapshot hknown htake] at hunit
      obtain ⟨read, hread, rfl⟩ := Option.map_eq_some_iff.mp hunit
      -- a unit that cannot be read mentions nothing
      cases read with
      | ok text => exact hedges path text hpath hread other hother
      | error e => cases hother
  obtain ⟨_, _, rfl⟩ := eq_of_takeSnapshot htake
  obtain ⟨_, _, rfl⟩ := eq_of_takeSnapshot htake'
  refine ⟨hshares.check_eq hpath, hshares.interface_eq hpath, fun kind => ⟨emit_eq_writeFiles _ path kind, ?_⟩⟩
  rw [hshares.filesOf_eq hroot hout hpath]
  exact emit_eq_writeFiles _ path kind

/-! ### Projects of a few files -/

/-- A new host of a directory with some files, where every file is a unit. -/
def ofFiles (files : List (UnitPath × List UInt8)) (inferred : Bool) : ProjectHost FileTable where
  storage := files.foldl (fun table file => table.addFile (DiskPath.join "p" file.1) file.2) {}
  root := "p"
  matcher := ⟨[[.many]], none⟩
  outDir := "out"
  includeInferred := inferred

end ProjectHost

namespace Neighbours

/-- A unit that imports another one, republishes one that is not there, and uses one without import. -/
def mentioning : String :=
  "import \"b\"\nexport * from \"d\"\nexport let x = \"b\".y\nuse \"c\".f"

/-- A project in which the imported file is no text and the used one is. -/
def first : ProjectHost FileTable :=
  .ofFiles [("a", Text.Utf8.encode mentioning), ("b", [255]), ("c", Text.Utf8.encode "export fn f int")] true

/-- The project without the file that is used, under another policy. -/
def second : ProjectHost FileTable :=
  .ofFiles [("a", Text.Utf8.encode mentioning), ("b", [255])] false

theorem scan_both : first.matcher.scan first.storage first.root = .ok ["a", "b", "c"]
    ∧ second.matcher.scan second.storage second.root = .ok ["a", "b"] := by
  have hfound :
      first.matcher.scanFrom first.storage first.root (Storage.entryCount first.storage + 1) [first.root] []
          = .ok ["a", "b", "c"]
        ∧ second.matcher.scanFrom second.storage second.root (Storage.entryCount second.storage + 1)
          [second.root] [] = .ok ["a", "b"] := by
    decide +kernel
  exact ⟨Matcher.scan_of_sorted hfound.1 (by decide), Matcher.scan_of_sorted hfound.2 (by decide)⟩

def Mentioned (path : UnitPath) : Prop :=
  path ∈ ["a", "b", "d"]

theorem mentions_mentioned {path : UnitPath} {text : String} (hpath : Mentioned path)
    (hfile : first.fileAt path = some (.ok text)) :
    ∀ other ∈ (Source.Contents.parse text).mentions, Mentioned other := by
  have hread : ∀ path ∈ ["a", "b", "d"],
      ∀ text ∈ (Storage.readText first.storage (DiskPath.join first.root path)).toOption,
        ∀ other ∈ (Source.Contents.parse text).mentions, other ∈ ["a", "b", "d"] := by
    decide
  rw [ProjectHost.fileAt_of_scan scan_both.1] at hfile
  split at hfile
  · exact hread path hpath text (by rw [Option.some.inj hfile]; rfl)
  · cases hfile

theorem fileAt_eq {path : UnitPath} (hpath : Mentioned path) : first.fileAt path = second.fileAt path := by
  have hread : ∀ path ∈ ["a", "b", "d"],
      (if path ∈ ["a", "b", "c"] then some (Storage.readText first.storage (DiskPath.join first.root path))
        else none)
        = if path ∈ ["a", "b"] then some (Storage.readText second.storage (DiskPath.join second.root path))
          else none := by
    decide
  rw [ProjectHost.fileAt_of_scan scan_both.1, ProjectHost.fileAt_of_scan scan_both.2]
  exact hread path hpath

end Neighbours

namespace ProjectHost

/-- A unit looks the same whether a file that it uses without import is there or not. -/
theorem answers_of_edges_neighbours :
    ∃ snapshot after snapshot' after', Neighbours.first.takeSnapshot = (.ok snapshot, after)
      ∧ Neighbours.second.takeSnapshot = (.ok snapshot', after')
      ∧ (Host.check after "a").1 = (Host.check after' "a").1
      ∧ (Host.interface after "a").1 = (Host.interface after' "a").1
      ∧ Host.emit after' "a" .full = after'.writeFiles "a" (after.filesOf "a" .full) := by
  obtain ⟨snapshot, after, htake⟩ := exists_takeSnapshot Neighbours.scan_both.1
  obtain ⟨snapshot', after', htake'⟩ := exists_takeSnapshot Neighbours.scan_both.2
  have hroot : Neighbours.first.root = Neighbours.second.root := rfl
  have hout : Neighbours.first.outDir = Neighbours.second.outDir := rfl
  have hpath : Neighbours.Mentioned "a" := List.mem_cons_self
  obtain ⟨hcheck, hinterface, hemit⟩ := answers_of_edges hroot hout faithful_nil faithful_nil htake htake'
    (fun _ _ => Neighbours.mentions_mentioned) (fun _ => Neighbours.fileAt_eq) hpath
  exact ⟨snapshot, after, snapshot', after', htake, htake', hcheck, hinterface, (hemit .full).2⟩

end ProjectHost

end Rebuild
