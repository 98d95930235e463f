import Mathlib.Data.List.Nodup
import Rebuild.Proofs.Project.Walk
import Rebuild.Proofs.Storage.Path

/-!
# What a scan finds

Where directories are listed by the names of what is in them, a scan comes to each directory below the root
once, and takes each file that it comes across once.

* `Storage.Leads`, `Storage.FileBelow`: the names that lead from a directory to what is below it;
* `Storage.Tour`: what is known about a scan between two directories;
* `Storage.bounded_of_leads`: how many directories a walk comes to;
* `Matcher.exists_files_of_tour`: what the rest of a scan finds;
* `Matcher.exists_files_of_scan`: what a scan finds.
-/

namespace Rebuild

open DiskPath (IsName below)

/-! ### Ways to files -/

namespace Storage

variable {σ : Type} [Storage σ] {s : σ} {root dir : DiskPath} {names above : List String} {name : String}
variable {visited pending : List (List String)}

/-- Directories are listed by the names of what is in them, each of them once. -/
def ListsNames (s : σ) : Prop :=
  ∀ dir paths, list s dir = .ok paths →
    ∃ names : List String, paths = names.map (DiskPath.join dir) ∧ names.Nodup ∧ ∀ name ∈ names, IsName name

/-- A directory is listed with a name in it. -/
def Holds (s : σ) (dir : DiskPath) (name : String) : Prop :=
  IsName name ∧ ∃ paths, list s dir = .ok paths ∧ DiskPath.join dir name ∈ paths

/-- The names that lead from a directory to one below it. -/
inductive Leads (s : σ) (root : DiskPath) : List String → Prop
  | here : Leads s root []
  | into {above : List String} {name : String} (lead : Leads s root above)
      (holds : Holds s (below root above) name) (hdir : isDir s (below root (above ++ [name])) = true) :
      Leads s root (above ++ [name])

/-- The names that lead from a directory to a file below it. -/
def FileBelow (s : σ) (root : DiskPath) (names : List String) : Prop :=
  ∃ above name, names = above ++ [name] ∧ Leads s root above ∧ Holds s (below root above) name
    ∧ isDir s (below root names) = false ∧ isFile s (below root names) = true

theorem holds_iff_mem (hlist : list s dir = .ok (names.map (DiskPath.join dir)))
    (hnames : ∀ name ∈ names, IsName name) : Holds s dir name ↔ name ∈ names := by
  constructor
  · rintro ⟨hname, paths, hpaths, hmem⟩
    rw [hlist] at hpaths
    cases hpaths
    obtain ⟨other, hother, hsame⟩ := List.mem_map.mp hmem
    have hjoin := DiskPath.join_inj (hnames other hother).isAbsolute_eq hname.isAbsolute_eq hsame
    exact hjoin ▸ hother
  · intro hmem
    exact ⟨hnames name hmem, _, hlist, List.mem_map_of_mem hmem⟩

theorem Leads.isName (h : Leads s root names) : ∀ name ∈ names, IsName name := by
  induction h with
  | here => nofun
  | into _ holds _ ih => exact List.forall_mem_append.mpr ⟨ih, List.forall_mem_singleton.mpr holds.1⟩

theorem FileBelow.isName (h : FileBelow s root names) : ∀ name ∈ names, IsName name := by
  obtain ⟨above, name, rfl, hlead, hholds, _⟩ := h
  exact List.forall_mem_append.mpr ⟨hlead.isName, List.forall_mem_singleton.mpr hholds.1⟩

theorem nodup_map_concat (above : List String) (hnodup : names.Nodup) :
    (names.map fun name => above ++ [name]).Nodup := by
  refine hnodup.map fun first second hsame => ?_
  exact List.singleton_inj.mp (List.append_cancel_left hsame)

/-! ### Tours -/

/-- What is known about a scan when some directories were visited and others are pending: no directory is
among them twice, and the directories in a visited one are among them. -/
structure Tour (s : σ) (root : DiskPath) (visited pending : List (List String)) : Prop where
  nodup : (visited ++ pending).Nodup
  leads : ∀ names ∈ visited ++ pending, Leads s root names
  above : ∀ above name, above ++ [name] ∈ visited ++ pending → above ∈ visited
  into : ∀ above ∈ visited, ∀ name, Holds s (below root above) name →
    isDir s (below root (above ++ [name])) = true → above ++ [name] ∈ visited ++ pending
  start : [] ∈ visited ++ pending

theorem Tour.begin (s : σ) (root : DiskPath) : Tour s root [] [[]] where
  nodup := List.nodup_singleton []
  leads names hnames := by
    rw [List.mem_singleton.mp hnames]
    exact .here
  above above name hmem := absurd (List.mem_singleton.mp hmem) (List.append_ne_nil_of_right_ne_nil _ (by simp))
  into := nofun
  start := List.mem_singleton_self []

/-- A tour that is at its end has come to all directories. -/
theorem Tour.mem_visited (h : Tour s root visited []) (hlead : Leads s root names) : names ∈ visited := by
  have hstart := h.start
  rw [List.append_nil] at hstart
  induction hlead with
  | here => exact hstart
  | into _ holds hdir ih =>
      have hnext := h.into _ ih _ holds hdir
      rwa [List.append_nil] at hnext

/-- The directories in a directory, the last one first. -/
def dirsIn (s : σ) (root : DiskPath) (above names : List String) : List (List String) :=
  ((names.filter fun name => isDir s (below root (above ++ [name]))).map fun name => above ++ [name]).reverse

theorem mem_dirsIn {dirs : List String} :
    dirs ∈ dirsIn s root above names
      ↔ ∃ name ∈ names, isDir s (below root (above ++ [name])) = true ∧ above ++ [name] = dirs := by
  simp only [dirsIn, List.mem_reverse, List.mem_map, List.mem_filter, and_assoc]

/-- **The next directory.**  Its directories are pending from then on. -/
theorem Tour.next {rest : List (List String)} (h : Tour s root visited (above :: rest))
    (hlist : list s (below root above) = .ok (names.map (DiskPath.join (below root above))))
    (hnodup : names.Nodup) (hnames : ∀ name ∈ names, IsName name) :
    Tour s root (above :: visited) (dirsIn s root above names ++ rest) := by
  have hmem : ∀ dirs, dirs ∈ (above :: visited) ++ (dirsIn s root above names ++ rest)
      ↔ dirs ∈ visited ++ above :: rest ∨ dirs ∈ dirsIn s root above names := by
    intro dirs
    simp only [List.mem_append, List.mem_cons]
    tauto
  -- what is in the directory was not come across before, since the directory was not visited
  have hfresh : ∀ dirs ∈ dirsIn s root above names, dirs ∉ visited ++ above :: rest := by
    intro dirs hdirs hbefore
    obtain ⟨name, _, _, rfl⟩ := mem_dirsIn.mp hdirs
    exact (List.nodup_append.mp h.nodup).2.2 above (h.above _ _ hbefore) above List.mem_cons_self rfl
  refine ⟨?_, fun dirs hdirs => ?_, fun other name hother => ?_, fun other hother name hholds hdir => ?_, ?_⟩
  · have hsubs : (dirsIn s root above names).Nodup := by
      rw [dirsIn, List.nodup_reverse]
      exact nodup_map_concat above (hnodup.filter _)
    have hperm : ((above :: visited) ++ (dirsIn s root above names ++ rest)).Perm
        (dirsIn s root above names ++ (visited ++ above :: rest)) := by
      have hmiddle : (above :: (visited ++ rest)).Perm (visited ++ above :: rest) := List.perm_middle.symm
      refine List.Perm.trans ?_ (hmiddle.append_left _)
      rw [List.cons_append, ← List.append_assoc]
      refine List.Perm.trans ?_ List.perm_middle.symm
      rw [← List.append_assoc]
      exact (List.perm_append_comm.append_right rest).cons above
    rw [hperm.nodup_iff, List.nodup_append]
    exact ⟨hsubs, h.nodup, fun dirs hdirs other hother hsame => hfresh dirs hdirs (hsame ▸ hother)⟩
  · rcases (hmem dirs).mp hdirs with hbefore | hnew
    · exact h.leads dirs hbefore
    · obtain ⟨name, hname, hdir, rfl⟩ := mem_dirsIn.mp hnew
      have hlead := h.leads above (List.mem_append_right _ List.mem_cons_self)
      exact .into hlead ((holds_iff_mem hlist hnames).mpr hname) hdir
  · rcases (hmem _).mp hother with hbefore | hnew
    · exact List.mem_cons_of_mem _ (h.above _ _ hbefore)
    · obtain ⟨name', _, _, hsame⟩ := mem_dirsIn.mp hnew
      rw [(List.append_inj' hsame rfl).1]
      exact List.mem_cons_self
  · rw [hmem]
    rcases List.mem_cons.mp hother with rfl | hbefore
    · exact .inr (mem_dirsIn.mpr ⟨name, (holds_iff_mem hlist hnames).mp hholds, hdir, rfl⟩)
    · exact .inl (h.into other hbefore name hholds hdir)
  · exact (hmem _).mpr (.inl h.start)

/-- The directories that are listed, as paths. -/
theorem filter_map_join (keep : DiskPath → Bool) :
    (names.map (DiskPath.join (below root above))).filter keep
      = ((names.filter fun name => keep (below root (above ++ [name]))).map fun name => above ++ [name]).map
        (below root) := by
  have hbelow : (below root) ∘ (fun name => above ++ [name]) = DiskPath.join (below root above) := by
    funext name
    exact DiskPath.below_concat root above name
  rw [List.map_map, hbelow, List.filter_map]
  simp only [← hbelow, Function.comp_def]

theorem map_dirsIn :
    (dirsIn s root above names).map (below root)
      = ((names.map (DiskPath.join (below root above))).filter (isDir s)).reverse := by
  rw [filter_map_join, dirsIn, List.map_reverse]

/-- A walk goes on with a tour, and comes to one more directory with each visit. -/
theorem Tour.walk (h : Tour s root visited pending) (hlists : ListsNames s) {n : Nat} {later : List DiskPath}
    (hwalk : Walk s (pending.map (below root)) n later) :
    ∃ visited' pending', later = pending'.map (below root) ∧ Tour s root visited' pending'
      ∧ visited'.length = visited.length + n := by
  generalize hstart : pending.map (below root) = start at hwalk
  induction hwalk generalizing visited pending with
  | rest start => exact ⟨visited, pending, hstart.symm, h, rfl⟩
  | @visit dir rest paths later n listed _ ih =>
      obtain ⟨above, pending, rfl, rfl, rfl⟩ := List.map_eq_cons_iff.mp hstart
      obtain ⟨names, rfl, hnodup, hnames⟩ := hlists _ _ listed
      have hnext := h.next listed hnodup hnames
      obtain ⟨visited', pending', hlater, htour, hlength⟩ := ih hnext (by rw [List.map_append, map_dirsIn])
      refine ⟨visited', pending', hlater, htour, ?_⟩
      rw [hlength, List.length_cons]
      omega

/-- **Walks are bounded** where directories are listed by names, and entries are counted: besides the directory
that a walk starts in, no more directories are below it than entries. -/
theorem bounded_of_leads (hlists : ListsNames s) {dirs : List (List String)}
    (hdirs : ∀ names, Leads s root names → names ∈ dirs) (hlength : dirs.length ≤ entryCount s + 1) :
    Bounded s root := by
  intro n dir rest hwalk
  obtain ⟨visited, pending, hlater, htour, hvisited⟩ := (Tour.begin s root).walk hlists hwalk
  have hle := htour.nodup.length_le_of_subset fun names hnames => hdirs names (htour.leads names hnames)
  have hpending := congrArg List.length hlater
  rw [List.length_append, hvisited] at hle
  simp only [List.length_cons, List.length_map, List.length_nil] at hpending hle
  omega

end Storage

/-! ### Scans -/

namespace Matcher

open Storage (ListsNames Leads FileBelow Tour dirsIn holds_iff_mem)

variable {σ : Type} [Storage σ] {s : σ} {root : DiskPath} {m : Matcher} {units found : List UnitPath}
variable {visited pending : List (List String)} {above names : List String} {fuel : Nat}

def everything : Matcher :=
  ⟨[[.many]], none⟩

def filesIn (s : σ) (root : DiskPath) (above names : List String) : List (List String) :=
  (names.filter fun name => !Storage.isDir s (below root (above ++ [name]))
    && Storage.isFile s (below root (above ++ [name]))).map fun name => above ++ [name]

theorem mem_filesIn {file : List String} :
    file ∈ filesIn s root above names
      ↔ ∃ name ∈ names, (Storage.isDir s (below root (above ++ [name])) = false
        ∧ Storage.isFile s (below root (above ++ [name])) = true) ∧ above ++ [name] = file := by
  simp only [filesIn, List.mem_map, List.mem_filter, Bool.and_eq_true, Bool.not_eq_true', and_assoc]

/-- The files in a directory are the files below the root that lie right in it. -/
theorem mem_filesIn_iff_fileBelow (hlead : Leads s root above)
    (hlist : Storage.list s (below root above) = .ok (names.map (DiskPath.join (below root above))))
    (hnames : ∀ name ∈ names, IsName name) {file : List String} :
    file ∈ filesIn s root above names ↔ FileBelow s root file ∧ file.dropLast = above := by
  rw [mem_filesIn]
  constructor
  · rintro ⟨name, hname, ⟨hdir, hisFile⟩, rfl⟩
    have hholds := (holds_iff_mem hlist hnames).mpr hname
    exact ⟨⟨above, name, rfl, hlead, hholds, hdir, hisFile⟩, List.dropLast_concat⟩
  · rintro ⟨⟨above', name, rfl, _, hholds, hdir, hisFile⟩, hlast⟩
    rw [List.dropLast_concat] at hlast
    subst hlast
    exact ⟨name, (holds_iff_mem hlist hnames).mp hholds, ⟨hdir, hisFile⟩, rfl⟩

/-- One turn of a scan. -/
theorem scanFrom_cons (m : Matcher) (fuel : Nat)
    (hlist : Storage.list s (below root above) = .ok (names.map (DiskPath.join (below root above)))) :
    m.scanFrom s root (fuel + 1) ((above :: pending).map (below root)) found
      = m.scanFrom s root fuel ((dirsIn s root above names ++ pending).map (below root))
        (found ++ (filesIn s root above names).filterMap fun file => m.unitOf? root (below root file)) := by
  rw [List.map_cons, scanFrom, hlist]
  dsimp only
  rw [← Storage.map_dirsIn, ← List.map_append, Storage.filter_map_join, List.filterMap_map]
  rfl

/-- **The rest of a scan.**  It finds the units of files that are in directories not visited before, each file
once; and of all these files, unless there are too many directories. -/
theorem exists_files_of_tour (hlists : ListsNames s) (htour : Tour s root visited pending)
    (hscan : m.scanFrom s root fuel (pending.map (below root)) found = .ok units) :
    ∃ files : List (List String),
      units = found ++ files.filterMap (fun file => m.unitOf? root (below root file))
        ∧ files.Nodup ∧ (∀ file ∈ files, FileBelow s root file ∧ file.dropLast ∉ visited)
        ∧ ∀ dirs : List (List String), (∀ names, Leads s root names → names ∈ dirs) →
          dirs.length < fuel + visited.length →
          ∀ file, FileBelow s root file → file.dropLast ∉ visited → file ∈ files := by
  induction fuel generalizing visited pending found with
  | zero =>
      rw [scanFrom] at hscan
      cases hscan
      refine ⟨[], by simp, List.nodup_nil, List.forall_mem_nil _, fun dirs hdirs hlength => ?_⟩
      -- more directories were visited than there are
      have hsubset : visited ⊆ dirs := fun names hnames => hdirs _ (htour.leads _ (List.mem_append_left _ hnames))
      have hle := (List.nodup_append.mp htour.nodup).1.length_le_of_subset hsubset
      omega
  | succ fuel ih =>
      cases pending with
      | nil =>
          rw [List.map_nil, scanFrom] at hscan
          cases hscan
          refine ⟨[], by simp, List.nodup_nil, List.forall_mem_nil _, fun dirs _ _ file hfile hnone => ?_⟩
          refine absurd ?_ hnone
          obtain ⟨above, name, rfl, hlead, _⟩ := hfile
          rw [List.dropLast_concat]
          exact htour.mem_visited hlead
      | cons above pending =>
          cases hpaths : Storage.list s (below root above) with
          | error e =>
              rw [List.map_cons, scanFrom, hpaths] at hscan
              cases hscan
          | ok paths =>
              obtain ⟨names, rfl, hnodup, hnames⟩ := hlists _ _ hpaths
              rw [scanFrom_cons m fuel hpaths] at hscan
              have hnew : above ∉ visited := by
                intro hvisited
                exact (List.nodup_append.mp htour.nodup).2.2 above hvisited above List.mem_cons_self rfl
              have hlead := htour.leads above (List.mem_append_right _ List.mem_cons_self)
              have hhere : ∀ {file}, file ∈ filesIn s root above names
                  ↔ FileBelow s root file ∧ file.dropLast = above :=
                mem_filesIn_iff_fileBelow hlead hpaths hnames
              obtain ⟨files, rfl, hfiles, hbelow, hall⟩ := ih (htour.next hpaths hnodup hnames) hscan
              refine ⟨filesIn s root above names ++ files, ?_, ?_, ?_, ?_⟩
              · rw [List.filterMap_append, List.append_assoc]
              · have hfirst : (filesIn s root above names).Nodup := Storage.nodup_map_concat above (hnodup.filter _)
                refine List.nodup_append.mpr ⟨hfirst, hfiles, ?_⟩
                intro file hfile other hother hsame
                subst hsame
                exact (hbelow file hother).2 (List.mem_cons.mpr (Or.inl (hhere.mp hfile).2))
              · intro file hfile
                rcases List.mem_append.mp hfile with hfirst | hlater
                · obtain ⟨hfile, hlast⟩ := hhere.mp hfirst
                  exact ⟨hfile, hlast ▸ hnew⟩
                · obtain ⟨hfile, hother⟩ := hbelow file hlater
                  exact ⟨hfile, fun hvisited => hother (List.mem_cons_of_mem _ hvisited)⟩
              · intro dirs hdirs hlength file hfile hother
                rw [List.mem_append]
                by_cases hlast : file.dropLast = above
                · exact Or.inl (hhere.mpr ⟨hfile, hlast⟩)
                · right
                  refine hall dirs hdirs ?_ file hfile (List.not_mem_cons_of_ne_of_not_mem hlast hother)
                  rw [List.length_cons]
                  omega

/-- **What a scan finds.**  A scan that succeeds finds, in order, the units of files below the root, each file
once; and of all files below the root, when no more directories are there than entries. -/
theorem exists_files_of_scan (hlists : ListsNames s) (hscan : m.scan s root = .ok units) :
    units.Pairwise (· ≤ ·) ∧ ∃ files : List (List String),
      files.Nodup ∧ (∀ file ∈ files, FileBelow s root file)
        ∧ units.Perm (files.filterMap fun file => m.unitOf? root (below root file))
        ∧ ∀ dirs : List (List String), (∀ names, Leads s root names → names ∈ dirs) →
          dirs.length ≤ Storage.entryCount s → ∀ file, FileBelow s root file → file ∈ files := by
  rw [scan] at hscan
  cases hfound : m.scanFrom s root (Storage.entryCount s + 1) [root] [] with
  | error e =>
      rw [hfound] at hscan
      cases hscan
  | ok found =>
      rw [hfound] at hscan
      cases hscan
      constructor
      · have htrans : ∀ a b c : UnitPath,
            decide (a ≤ b) = true → decide (b ≤ c) = true → decide (a ≤ c) = true := by
          intro a b c hab hbc
          exact decide_eq_true (String.le_trans (of_decide_eq_true hab) (of_decide_eq_true hbc))
        have htotal : ∀ a b : UnitPath, (decide (a ≤ b) || decide (b ≤ a)) = true := by
          intro a b
          simpa using String.le_total a b
        exact (List.pairwise_mergeSort htrans htotal found).imp of_decide_eq_true
      · obtain ⟨files, hunits, hnodup, hbelow, hall⟩ :=
          exists_files_of_tour hlists (Tour.begin s root) hfound
        refine ⟨files, hnodup, fun file hfile => (hbelow file hfile).1, ?_, fun dirs hdirs hlength file hfile => ?_⟩
        · rw [List.nil_append] at hunits
          rw [← hunits]
          exact List.mergeSort_perm _ _
        · refine hall dirs hdirs ?_ file hfile List.not_mem_nil
          rw [List.length_nil]
          omega

end Matcher

end Rebuild
