import Rebuild.Program.Basic
import Rebuild.Proofs.Graph
import Rebuild.Proofs.Project.Compare
import Rebuild.Proofs.Storage

/-!
# Project trees

A host that took snapshots before parses the texts that have changed only.  It still sees the same
as a new host.

* `Tree`: the unit files of a project, with their texts;
* `Tree.units`, `Tree.snapshot`: the units that a host reads from a tree, and the snapshot of it;
* `ProjectHost.Holds`: the storage of a host holds a tree, all of it readable;
* `ProjectHost.takeSnapshot_eq`: such a host takes the snapshot of the tree, whatever it knew.
-/

namespace Rebuild

/-- The unit files of a project in the order in which a scan finds them, each with its text. -/
structure Tree where
  files : List (UnitPath × String)
  /-- A file has one text. -/
  single : ∀ path text text', (path, text) ∈ files → (path, text') ∈ files → text = text'
  /-- The path below the root is the key of the unit. -/
  normal : ∀ path text, (path, text) ∈ files → UnitPath.normalize path = path

def LoadedUnit.ofText (text : String) : LoadedUnit :=
  ⟨text, Source.Contents.parse text, none⟩

/-! ### Tables of units -/

namespace ProjectHost

variable {units known : Units} {path : UnitPath} {unit : LoadedUnit}

theorem lookup_putUnit (units : Units) (put : UnitPath × LoadedUnit) (path : UnitPath) :
    (putUnit units put).lookup path = if path = put.1 then some put.2 else units.lookup path := by
  obtain ⟨key, value⟩ := put
  rw [putUnit, List.lookup_append, lookup_filter_ne]
  by_cases hpath : path = key
  · simp [hpath]
  · simp [hpath, List.lookup_cons, beq_eq_false_iff_ne.mpr hpath]

/-- Whatever is found in a table was put there. -/
theorem mem_of_lookup_foldl {puts : Units}
    (h : (puts.foldl putUnit units).lookup path = some unit) :
    (path, unit) ∈ puts ∨ units.lookup path = some unit := by
  induction puts generalizing units with
  | nil => exact Or.inr h
  | cons put puts ih =>
      rcases ih h with hlater | hfound
      · exact Or.inl (List.mem_cons_of_mem _ hlater)
      · rw [lookup_putUnit] at hfound
        split at hfound
        · rename_i hpath
          cases hfound
          exact Or.inl (hpath ▸ List.mem_cons_self)
        · exact Or.inr hfound

/-- Whatever was put into a table has a successor there. -/
theorem isSome_lookup_foldl {puts : Units}
    (h : (path, unit) ∈ puts ∨ (units.lookup path).isSome = true) :
    ((puts.foldl putUnit units).lookup path).isSome = true := by
  induction puts generalizing units with
  | nil => simpa using h
  | cons put puts ih =>
      refine ih ?_
      rw [lookup_putUnit]
      rcases h with hmem | hsome
      · rcases List.mem_cons.mp hmem with rfl | hlater
        · exact Or.inr (by simp)
        · exact Or.inl hlater
      · refine Or.inr ?_
        split
        · rfl
        · exact hsome

end ProjectHost

namespace Tree

variable {tree : Tree} {path : UnitPath} {unit : LoadedUnit}

def units (tree : Tree) : ProjectHost.Units :=
  (tree.files.map fun file => (file.1, LoadedUnit.ofText file.2)).foldl ProjectHost.putUnit []

theorem lookup_units :
    tree.units.lookup path = some unit
      ↔ ∃ text, (path, text) ∈ tree.files ∧ unit = LoadedUnit.ofText text := by
  have hsound : ∀ {unit}, tree.units.lookup path = some unit →
      ∃ text, (path, text) ∈ tree.files ∧ unit = LoadedUnit.ofText text := by
    intro unit h
    rcases ProjectHost.mem_of_lookup_foldl h with hmem | hfound
    · obtain ⟨⟨other, text⟩, hfile, hsame⟩ := List.mem_map.mp hmem
      cases hsame
      exact ⟨text, hfile, rfl⟩
    · cases hfound
  refine ⟨hsound, ?_⟩
  rintro ⟨text, hfile, rfl⟩
  have hsome : (tree.units.lookup path).isSome = true :=
    ProjectHost.isSome_lookup_foldl (Or.inl (List.mem_map.mpr ⟨_, hfile, rfl⟩))
  obtain ⟨found, hfound⟩ := Option.isSome_iff_exists.mp hsome
  obtain ⟨text', hfile', rfl⟩ := hsound hfound
  rw [hfound, tree.single path text text' hfile hfile']

end Tree

/-! ### Snapshots -/

/-- Of several units with one path the first is kept. -/
theorem Snapshot.find?_distinct {seen : List UnitPath} {path : UnitPath} (hpath : path ∉ seen)
    (units : List SourceUnit) :
    (distinct seen units).find? (fun unit => unit.path == path)
      = units.find? fun unit => unit.path == path := by
  induction units generalizing seen with
  | nil => rfl
  | cons unit units ih =>
      rw [distinct, List.find?_cons]
      by_cases hsame : unit.path = path
      · subst hsame
        simp [hpath]
      · rw [beq_eq_false_iff_ne.mpr hsame]
        split
        · exact ih hpath
        · rw [List.find?_cons, beq_eq_false_iff_ne.mpr hsame]
          exact ih fun hmem => (List.mem_cons.mp hmem).elim (fun h => hsame h.symm) hpath

theorem SourceUnit.foldl_addDependency (unit : SourceUnit) (deps : List Dependency) :
    deps.foldl addDependency unit
      = { unit with
          dependencies := unit.dependencies
            ++ deps.map fun dep => ⟨UnitPath.normalize dep.path, dep.reexported⟩ } := by
  induction deps generalizing unit with
  | nil => simp
  | cons dep deps ih =>
      rw [List.foldl_cons, ih]
      simp [addDependency]

namespace ProjectHost

variable {path : UnitPath} {unit : LoadedUnit} {found : String}

@[simp] theorem path_sourceUnit :
    (sourceUnit path unit found).path = UnitPath.normalize path := by
  rw [sourceUnit, SourceUnit.foldl_addDependency]
  rfl

@[simp] theorem version_sourceUnit : (sourceUnit path unit found).version = found := by
  rw [sourceUnit, SourceUnit.foldl_addDependency]

/-- A unit depends on every unit that its text names. -/
theorem exists_dependency {other : UnitPath} (h : other ∈ unit.contents.mentions) :
    ∃ dep ∈ (sourceUnit path unit found).dependencies, dep.path = UnitPath.normalize other := by
  rw [sourceUnit, SourceUnit.foldl_addDependency]
  simp only [SourceUnit.ofText, List.nil_append, List.mem_map, List.mem_append]
  rcases List.mem_append.mp h with himport | hsource
  · obtain ⟨i, hi, rfl⟩ := List.mem_map.mp himport
    exact ⟨_, ⟨⟨i.path, i.reexport⟩, Or.inl ⟨i, hi, rfl⟩, rfl⟩, rfl⟩
  · exact ⟨_, ⟨⟨other, false⟩, Or.inr ⟨other, hsource, rfl⟩, rfl⟩, rfl⟩

end ProjectHost

namespace Tree

variable {tree : Tree} {path : UnitPath}

/-- The unit of a file. -/
def sourceOf (file : UnitPath × String) : SourceUnit :=
  ProjectHost.sourceUnit file.1 (LoadedUnit.ofText file.2) (Rebuild.version file.2)

def snapshot (tree : Tree) : Snapshot :=
  Snapshot.ofUnits (tree.files.map sourceOf)

theorem unit?_snapshot {unit : SourceUnit} :
    tree.snapshot.unit? path = some unit
      ↔ ∃ text, (path, text) ∈ tree.files ∧ unit = sourceOf (path, text) := by
  have hfind : tree.snapshot.unit? path
      = (tree.files.map sourceOf).find? fun unit => unit.path == path :=
    Snapshot.find?_distinct (by simp) _
  have hsound : ∀ {unit}, tree.snapshot.unit? path = some unit →
      ∃ text, (path, text) ∈ tree.files ∧ unit = sourceOf (path, text) := by
    intro unit h
    rw [hfind] at h
    obtain ⟨⟨other, text⟩, hfile, rfl⟩ := List.mem_map.mp (List.mem_of_find?_eq_some h)
    have hpath : other = path := by
      have hsame := List.find?_some h
      rwa [beq_iff_eq, sourceOf, ProjectHost.path_sourceUnit, tree.normal other text hfile] at hsame
    subst hpath
    exact ⟨text, hfile, rfl⟩
  refine ⟨hsound, ?_⟩
  rintro ⟨text, hfile, rfl⟩
  have hsome : (tree.snapshot.unit? path).isSome = true := by
    rw [hfind, List.find?_isSome]
    refine ⟨sourceOf (path, text), List.mem_map_of_mem hfile, ?_⟩
    rw [beq_iff_eq, sourceOf, ProjectHost.path_sourceUnit, tree.normal path text hfile]
  obtain ⟨found, hfound⟩ := Option.isSome_iff_exists.mp hsome
  obtain ⟨text', hfile', rfl⟩ := hsound hfound
  rw [hfound, tree.single path text text' hfile hfile']

/-- A path names a unit of the snapshot when it names a file. -/
theorem isSome_unit?_snapshot :
    (tree.snapshot.unit? path).isSome = ProjectHost.has tree.units path := by
  rw [ProjectHost.has, Bool.eq_iff_iff, Option.isSome_iff_exists, Option.isSome_iff_exists]
  constructor
  · rintro ⟨unit, hunit⟩
    obtain ⟨text, hfile, _⟩ := unit?_snapshot.mp hunit
    exact ⟨_, lookup_units.mpr ⟨text, hfile, rfl⟩⟩
  · rintro ⟨unit, hunit⟩
    obtain ⟨text, hfile, _⟩ := lookup_units.mp hunit
    exact ⟨_, unit?_snapshot.mpr ⟨text, hfile, rfl⟩⟩

theorem lookup_eq_none (h : tree.snapshot.unit? path = none) : tree.units.lookup path = none := by
  have hhas := isSome_unit?_snapshot.symm.trans (congrArg Option.isSome h)
  exact Option.isNone_iff_eq_none.mp (by rw [← Option.not_isSome, ← ProjectHost.has, hhas]; rfl)

end Tree

/-! ### Reading a tree -/

/-- A scan that finds the files in order has nothing to sort. -/
theorem Matcher.scan_of_sorted {σ : Type} [Storage σ] {m : Matcher} {s : σ} {root : DiskPath}
    {paths : List UnitPath}
    (hscan : m.scanFrom s root (Storage.entryCount s + 1) [root] [] = .ok paths)
    (hsorted : paths.Pairwise (· ≤ ·)) : m.scan s root = .ok paths := by
  rw [scan, hscan]
  show Except.ok (paths.mergeSort _) = _
  rw [List.mergeSort_of_pairwise (by simpa using hsorted)]

namespace ProjectHost

variable {σ : Type} [Storage σ] {h : ProjectHost σ} {s : σ} {root : DiskPath} {known : Units}
variable {tree : Tree}

/-- The storage of a host holds a tree, and every file of it can be read. -/
structure Holds (h : ProjectHost σ) (tree : Tree) : Prop where
  scan : h.matcher.scan h.storage h.root = .ok (tree.files.map (·.1))
  read : ∀ file ∈ tree.files,
    Storage.readText h.storage (DiskPath.join h.root file.1) = .ok file.2

theorem Holds.of_sorted
    (hscan : h.matcher.scanFrom h.storage h.root (Storage.entryCount h.storage + 1) [h.root] []
      = .ok (tree.files.map (·.1)))
    (hsorted : (tree.files.map (·.1)).Pairwise (· ≤ ·))
    (hread : ∀ file ∈ tree.files,
      Storage.readText h.storage (DiskPath.join h.root file.1) = .ok file.2) : h.Holds tree :=
  ⟨Matcher.scan_of_sorted hscan hsorted, hread⟩

/-- What is known about the units that could be read is what their texts say. -/
def Faithful (known : Units) : Prop :=
  ∀ path unit, known.lookup path = some unit → unit.unreadable = none →
    unit.contents = Source.Contents.parse unit.text

theorem faithful_nil : Faithful [] := by
  intro path unit hunit
  cases hunit

/-- What is left is faithful when some unit is forgotten. -/
theorem Faithful.filter (hknown : Faithful known) (other : UnitPath) :
    Faithful (known.filter (·.1 != other)) := by
  intro path unit hunit
  rw [lookup_filter_ne] at hunit
  split at hunit
  · cases hunit
  · exact hknown path unit hunit

theorem load_eq {file : DiskPath} {before : Option LoadedUnit} {text : String}
    (hread : Storage.readText s file = .ok text)
    (hbefore : ∀ unit, before = some unit → unit.unreadable = none →
      unit.contents = Source.Contents.parse unit.text) :
    load s file before = (LoadedUnit.ofText text, Rebuild.version text) := by
  rw [load, hread]
  cases before with
  | none => rfl
  | some old =>
      by_cases hreuse : old.unreadable.isNone ∧ old.text = text
      · obtain ⟨hreadable, rfl⟩ := hreuse
        have hreadable := Option.isNone_iff_eq_none.mp hreadable
        have hcontents := hbefore old rfl hreadable
        have hold : old = LoadedUnit.ofText old.text := by
          cases old
          simp only at hreadable hcontents
          rw [LoadedUnit.ofText, hreadable, hcontents]
        simp only [hreadable, Option.isNone_none, and_self, if_true]
        rw [← hold]
      · simp only [hreuse, if_false]
        rfl

/-- What was known before makes no difference. -/
theorem loadAll_eq {files : List (UnitPath × String)} (hknown : Faithful known)
    (hread : ∀ file ∈ files, Storage.readText s (DiskPath.join root file.1) = .ok file.2) :
    loadAll s root known (files.map (·.1))
      = files.map fun file => (file.1, LoadedUnit.ofText file.2, Rebuild.version file.2) := by
  induction files generalizing known with
  | nil => rfl
  | cons file files ih =>
      rw [List.map_cons, loadAll, load_eq (hread file List.mem_cons_self) (hknown file.1),
        List.map_cons]
      congr 1
      exact ih (hknown.filter file.1) fun other hother => hread other (List.mem_cons_of_mem _ hother)

/-- **Warm and cold hosts see the same.**  A host whose storage holds a tree takes the snapshot of
that tree, and keeps its units. -/
theorem takeSnapshot_eq (hholds : h.Holds tree) (hknown : Faithful h.units) :
    h.takeSnapshot = (.ok tree.snapshot, { h with units := tree.units }) := by
  rw [takeSnapshot, hholds.scan]
  simp only [loadAll_eq hknown hholds.read, List.map_map]
  rfl

theorem faithful_units (tree : Tree) : Faithful tree.units := by
  intro path unit hunit _
  obtain ⟨text, _, rfl⟩ := Tree.lookup_units.mp hunit
  rfl

end ProjectHost

end Rebuild
