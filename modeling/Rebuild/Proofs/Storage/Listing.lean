import Rebuild.Proofs.Project.Scan
import Rebuild.Proofs.Storage.Table

/-!
# Listing a file table

In a table that came about by adding and removing files, everything can be reached by listing directories,
so a scan finds every file below its root.

* `FileTable.Linked.leads_iff`, `FileTable.Linked.fileBelow_iff`: what names lead to;
* `FileTable.Linked.bounded`: walks through such a table are bounded;
* `FileTable.Linked.exists_reaches`: there is a way to everything that is there;
* `FileTable.scan_complete`: what a scan finds, and what can be reached.
-/

namespace Rebuild

/-- A path is listed in a directory. -/
def Storage.Lists {σ : Type} [Storage σ] (s : σ) (dir path : DiskPath) : Prop :=
  ∃ paths, list s dir = .ok paths ∧ path ∈ paths

namespace FileTable

open DiskPath (IsName below)

variable {t : FileTable} {k : List Component} {name : String} {children names : List String}
variable {path root : DiskPath}

/-! ### Listing -/

theorem list_eq (hdir : t.get? (key path) = some (.dir children)) :
    Storage.list t path = .ok (children.map (DiskPath.join path)) := by
  simp only [Storage.list, hdir]

theorem exists_dir_of_list {paths : List DiskPath} (hlist : Storage.list t path = .ok paths) :
    ∃ children, t.get? (key path) = some (.dir children) ∧ paths = children.map (DiskPath.join path) := by
  simp only [Storage.list] at hlist
  split at hlist
  · rename_i children hdir
    cases hlist
    exact ⟨children, hdir, rfl⟩
  · cases hlist

theorem isDir_iff_kind? : Storage.isDir t path = true ↔ t.kind? (key path) = some true := by
  rw [isDir_iff, kind?_eq_true_iff]

theorem isFile_iff_kind? : Storage.isFile t path = true ↔ t.kind? (key path) = some false := by
  simp only [Storage.isFile, Option.isSome_iff_exists, content?_eq_some_iff, kind?_eq_false_iff]

namespace Linked

variable (h : Linked t [])
include h

theorem isName_of_mem (hdir : t.get? k = some (.dir children)) (hmem : name ∈ children) : IsName name :=
  (h.isKey _ (h.exist k children hdir name hmem)).of_child.2

theorem listsNames : Storage.ListsNames t := by
  intro dir paths hlist
  obtain ⟨children, hdir, rfl⟩ := exists_dir_of_list hlist
  exact ⟨children, rfl, h.nodup _ _ hdir, fun name hname => h.isName_of_mem hdir hname⟩

/-- A directory is listed with the names of what is there. -/
theorem holds_iff (hkey : key path = k) :
    Storage.Holds t path name ↔ (t.get? (k ++ [.name name])).isSome = true := by
  subst hkey
  constructor
  · rintro ⟨hname, paths, hlist, hmem⟩
    obtain ⟨children, hdir, rfl⟩ := exists_dir_of_list hlist
    obtain ⟨other, hother, hsame⟩ := List.mem_map.mp hmem
    have hjoin := DiskPath.join_inj (h.isName_of_mem hdir hother).isAbsolute_eq hname.isAbsolute_eq hsame
    exact h.exist _ _ hdir name (hjoin ▸ hother)
  · intro hsome
    obtain ⟨children, hdir, hmem⟩ := h.listed _ name hsome List.not_mem_nil
    exact ⟨h.isName_of_mem hdir hmem, _, list_eq hdir, List.mem_map_of_mem hmem⟩

/-- What is at a key below a directory is listed in the directory above it. -/
theorem exists_above (hsome : (t.get? (key root ++ (names ++ [name]).map .name)).isSome = true) :
    (∀ other ∈ names ++ [name], IsName other) ∧ t.kind? (key root ++ names.map .name) = some true
      ∧ Storage.Holds t (below root names) name := by
  have hnames : ∀ other ∈ names ++ [name], IsName other := fun other hother =>
    (h.isKey _ hsome).isName (List.mem_append_right _ (List.mem_map_of_mem hother))
  rw [List.map_append, ← List.append_assoc] at hsome
  obtain ⟨children, hparent, _⟩ := h.listed _ name hsome List.not_mem_nil
  have hbelow : key (below root names) = key root ++ names.map .name :=
    key_below (List.forall_mem_append.mp hnames).1
  exact ⟨hnames, kind?_eq_true_iff.mpr ⟨children, hparent⟩, (h.holds_iff hbelow).mpr hsome⟩

/-- The names that lead to a directory are those behind its key. -/
theorem leads_iff (hroot : Storage.isDir t root = true) :
    Storage.Leads t root names ↔ t.kind? (key root ++ names.map .name) = some true := by
  constructor
  · intro hlead
    have hkey : key (below root names) = key root ++ names.map .name := key_below hlead.isName
    rw [← hkey, ← isDir_iff_kind?]
    cases hlead with
    | here => exact hroot
    | into _ _ hdir => exact hdir
  · intro hdir
    induction names using List.reverseRecOn with
    | nil => exact .here
    | append_singleton names name ih =>
        obtain ⟨hnames, habove, hholds⟩ := h.exists_above (by rw [← isSome_kind?, hdir]; rfl)
        refine .into (ih habove) hholds ?_
        rw [isDir_iff_kind?, key_below hnames, hdir]

/-- The names that lead to a file are those behind its key. -/
theorem fileBelow_iff (hroot : Storage.isDir t root = true) :
    Storage.FileBelow t root names ↔ t.kind? (key root ++ names.map .name) = some false := by
  constructor
  · intro hfile
    have hkey : key (below root names) = key root ++ names.map .name := key_below hfile.isName
    obtain ⟨_, _, _, _, _, _, hisFile⟩ := hfile
    rwa [isFile_iff_kind?, hkey] at hisFile
  · intro hfile
    cases names using List.reverseRecOn with
    | nil =>
        rw [List.map_nil, List.append_nil, isDir_iff_kind?.mp hroot] at hfile
        cases hfile
    | append_singleton names name =>
        obtain ⟨hnames, habove, hholds⟩ := h.exists_above (by rw [← isSome_kind?, hfile]; rfl)
        refine ⟨names, name, rfl, (h.leads_iff hroot).mpr habove, hholds, ?_, ?_⟩
        · rw [Bool.eq_false_iff, ne_eq, isDir_iff_kind?, key_below hnames, hfile]
          exact nofun
        · rw [isFile_iff_kind?, key_below hnames, hfile]

/-- There are no more directories below a directory than entries. -/
theorem exists_dirs (hroot : Storage.isDir t root = true) :
    ∃ dirs : List (List String), dirs.length = Storage.entryCount t
      ∧ ∀ names, Storage.Leads t root names → names ∈ dirs := by
  refine ⟨t.entries.map fun entry => (entry.1.drop (key root).length).map Component.text, List.length_map _,
    fun names hlead => ?_⟩
  have hdir := (h.leads_iff hroot).mp hlead
  have hsome : (t.get? (key root ++ names.map .name)).isSome = true := by rw [← isSome_kind?, hdir]; rfl
  obtain ⟨entry, hentry, hkey⟩ := List.lookup_isSome_iff.mp hsome
  refine List.mem_map.mpr ⟨entry, hentry, ?_⟩
  rw [← eq_of_beq hkey, List.drop_left, List.map_map]
  exact List.map_id names

/-- Walks through a table are bounded. -/
theorem bounded (root : DiskPath) : Storage.Bounded t root := by
  cases hlist : Storage.list t root with
  | error e => exact Storage.bounded_of_error hlist
  | ok paths =>
      obtain ⟨children, hdir, _⟩ := exists_dir_of_list hlist
      obtain ⟨dirs, hlength, hdirs⟩ := h.exists_dirs (isDir_iff.mpr ⟨children, hdir⟩)
      exact Storage.bounded_of_leads h.listsNames hdirs (hlength.le.trans (Nat.le_succ _))

omit h in
/-- A scan that starts in a directory succeeds. -/
theorem exists_scan (hroot : Storage.isDir t root = true) (m : Matcher) : ∃ units, m.scan t root = .ok units := by
  cases hscan : m.scan t root with
  | ok units => exact ⟨units, rfl⟩
  | error e =>
      obtain ⟨dir, hvisits, hfails⟩ := (Matcher.scan_eq_error_iff m).mp hscan
      have hdir : Storage.isDir t dir = true := by
        rcases Relation.ReflTransGen.cases_tail hvisits.below with rfl | ⟨_, _, _, _, _, hdir⟩
        · exact hroot
        · exact hdir
      obtain ⟨children, hfound⟩ := isDir_iff.mp hdir
      rw [list_eq hfound] at hfails
      cases hfails

/-! ### What can be reached -/

omit h in
/-- Where the way to a key starts: in the root directory, or in the working directory. -/
def startAt (k : List Component) : DiskPath :=
  if .root ∈ k then "/" else "."

/-- There is a way to everything that is there. -/
theorem exists_reaches (hsome : (t.get? k).isSome = true) :
    (t.get? (key (startAt k))).isSome = true
      ∧ ∃ reached, Relation.ReflTransGen (Storage.Lists t) (startAt k) reached ∧ key reached = k := by
  induction h.isKey k hsome with
  | workDir => exact ⟨hsome, ".", .refl, rfl⟩
  | root => exact ⟨hsome, "/", .refl, rfl⟩
  | @child parent name _ hname ih =>
      obtain ⟨children, hparent, hmem⟩ := h.listed parent name hsome List.not_mem_nil
      obtain ⟨hstart, dir, hreaches, rfl⟩ := ih (by rw [hparent]; rfl)
      have hsame : startAt (key dir ++ [.name name]) = startAt (key dir) := by simp [startAt]
      rw [hsame]
      refine ⟨hstart, DiskPath.join dir name, hreaches.tail ?_, key_join dir hname⟩
      exact ⟨_, list_eq hparent, List.mem_map_of_mem hmem⟩

/-- Whatever is reached is there. -/
theorem isSome_of_reaches {start reached : DiskPath} (hstart : (t.get? (key start)).isSome = true)
    (hreaches : Relation.ReflTransGen (Storage.Lists t) start reached) :
    (t.get? (key reached)).isSome = true := by
  induction hreaches with
  | refl => exact hstart
  | tail _ hlists _ =>
      obtain ⟨paths, hlist, hmem⟩ := hlists
      obtain ⟨children, hdir, rfl⟩ := exists_dir_of_list hlist
      obtain ⟨name, hname, rfl⟩ := List.mem_map.mp hmem
      rw [key_join _ (h.isName_of_mem hdir hname)]
      exact h.exist _ _ hdir name hname

end Linked

/-- Where the way to a path starts: in the root directory, or in the working directory. -/
def startOf (path : DiskPath) : DiskPath :=
  if DiskPath.isAbsolute path then "/" else "."

/-- **A scan finds all files.**  Take a file table that came about by adding files, anywhere but below files
and onto directories, and removing files, in any order; paths may be absolute or relative, with dots in them,
but do not go up.  A scan of such a table succeeds in every directory, however its path is written, and finds
the units of the files below it in order: each file whose unit the matcher accepts counts once, and nothing
else does.

What is there is what can be reached: something is at a path if and only if the path, up to its spelling, can
be reached from the root directory, or for a relative path from the working directory, by listing
directories. -/
theorem scan_complete (hreached : Reached t) :
    (∀ (root : DiskPath) (m : Matcher), Storage.isDir t root = true →
      ∃ (units : List UnitPath) (files : List (List String)),
        m.scan t root = .ok units ∧ units.Pairwise (· ≤ ·)
          ∧ files.Nodup
          ∧ (∀ names, names ∈ files ↔ ∃ content, t.get? (key root ++ names.map .name) = some (.file content))
          ∧ (∀ names ∈ files, key (below root names) = key root ++ names.map .name
            ∧ DiskPath.unitPathUnder? root (below root names)
              = some (UnitPath.normalize (String.intercalate "/" names)))
          ∧ units.Perm (files.filterMap fun names => m.unitOf? root (below root names)))
      ∧ ∀ path, Storage.present t path = true
        ↔ Storage.present t (startOf path) = true
          ∧ ∃ reached, Relation.ReflTransGen (Storage.Lists t) (startOf path) reached
            ∧ key reached = key path := by
  have h := hreached.linked
  refine ⟨fun root m hroot => ?_, fun path => ?_⟩
  · obtain ⟨units, hscan⟩ := Linked.exists_scan hroot m
    obtain ⟨hsorted, files, hnodup, hbelow, hunits, hall⟩ := Matcher.exists_files_of_scan h.listsNames hscan
    obtain ⟨dirs, hlength, hdirs⟩ := h.exists_dirs hroot
    refine ⟨units, files, hscan, hsorted, hnodup, fun names => ?_, fun names hmem => ?_, hunits⟩
    · rw [← kind?_eq_false_iff, ← h.fileBelow_iff hroot]
      exact ⟨hbelow names, hall dirs hdirs hlength.le names⟩
    · exact ⟨key_below (hbelow names hmem).isName, DiskPath.unitPathUnder?_below (hbelow names hmem).isName⟩
  · have hstart : startOf path = Linked.startAt (key path) := by
      rw [startOf, Linked.startAt]
      exact if_congr (root_mem_key path).symm rfl rfl
    rw [hstart]
    constructor
    · exact h.exists_reaches
    · rintro ⟨hsome, reached, hreaches, hkey⟩
      show (t.get? (key path)).isSome = true
      rw [← hkey]
      exact h.isSome_of_reaches hsome hreaches

/-! ### A table with a few files -/

namespace Kept

def one : FileTable :=
  ({} : FileTable).addFile "p/a" [1]

/-- And one deeper in it. -/
def two : FileTable :=
  one.addFile "./p/sub/b" [2]

/-- The first file is written once more. -/
def rewritten : FileTable :=
  two.addFile "p//a" [3]

/-- And a file is added below the root directory. -/
def three : FileTable :=
  rewritten.addFile "/q/c" [4]

/-- The second file is removed. -/
def table : FileTable :=
  (Storage.remove three "p/sub/b").2

theorem reached_table : Reached table := by
  have hone : Reached one := .add [1] .new (by decide)
  have htwo : Reached two := .add [2] hone (by decide)
  have hrewritten : Reached rewritten := .add [3] htwo (by decide)
  have hthree : Reached three := .add [4] hrewritten (by decide)
  exact .remove "p/sub/b" hthree

end Kept

/-- The scan finds the file that is still there, and the absolute file is reached from the root directory. -/
theorem scan_complete_kept :
    Reached Kept.table ∧ Storage.isDir Kept.table "./p" = true
      ∧ (∃ files : List (List String), Matcher.everything.scan Kept.table "./p" = .ok ["a"]
        ∧ ["a"] ∈ files ∧ ["sub", "b"] ∉ files
        ∧ ["a"].Perm (files.filterMap fun names => Matcher.everything.unitOf? "./p" (below "./p" names)))
      ∧ ∃ reached, Relation.ReflTransGen (Storage.Lists Kept.table) "/" reached ∧ key reached = key "/q//c" := by
  have hroot : Storage.isDir Kept.table "./p" = true := by decide
  obtain ⟨hscan, hreach⟩ := scan_complete Kept.reached_table
  refine ⟨Kept.reached_table, hroot, ?_, ((hreach "/q//c").mp (by decide)).2⟩
  obtain ⟨units, files, hfound, _, _, hfiles, _, hunits⟩ := hscan "./p" Matcher.everything hroot
  have hone : Matcher.everything.scan Kept.table "./p" = .ok ["a"] :=
    Matcher.scan_of_sorted (by decide +kernel) (by decide)
  rw [hone] at hfound
  cases hfound
  refine ⟨files, hone, (hfiles ["a"]).mpr ⟨[3], by decide⟩, fun hmem => ?_, hunits⟩
  obtain ⟨content, hcontent⟩ := (hfiles ["sub", "b"]).mp hmem
  have hgone : Kept.table.get? (key "./p" ++ ["sub", "b"].map .name) = none := by decide
  rw [hgone] at hcontent
  cases hcontent

end FileTable

end Rebuild
