import Rebuild.Proofs.Project.Footprint
import Rebuild.Proofs.Storage.Tree

/-!
# The files that unit paths name

The path of a unit is made from the names that lead to its file, and put behind the root again when the file
is read.  This leads back to the file unless its path has backslashes in it, or blanks at its ends.

* `UnitPath.Plain`: a path that has none of these;
* `UnitPath.normalize_intercalate`, `DiskPath.join_intercalate`: there and back;
* `Storage.IsKeyOf`: a unit path and a file that it is made from;
* `ProjectHost.unit_names_file`: the units of a scan and the files that are read for them;
* `Matcher.unit_misses_file`: what happens to other files.
-/

namespace Rebuild

open DiskPath (IsName below)

/-! ### Joining and splitting -/

namespace Text

variable {sep : Char} {cs : List Char} {pieces : List (List Char)}

theorem join_cons_cons (sep piece second : List Char) (pieces : List (List Char)) :
    join sep (piece :: second :: pieces) = piece ++ sep ++ join sep (second :: pieces) := rfl

theorem splitOn_join (hsome : pieces ≠ []) (hpieces : ∀ piece ∈ pieces, sep ∉ piece) :
    splitOn sep (join [sep] pieces) = pieces := by
  induction pieces with
  | nil => exact absurd rfl hsome
  | cons piece pieces ih =>
      rw [List.forall_mem_cons] at hpieces
      cases pieces with
      | nil => exact splitOn_of_not_mem hpieces.1
      | cons second pieces =>
          rw [join_cons_cons, List.append_assoc, List.singleton_append, splitOn_append_sep,
            splitOn_of_not_mem hpieces.1, ih (List.cons_ne_nil _ _) hpieces.2]
          rfl

theorem intercalate_eq_join (sep : Char) (pieces : List (List Char)) :
    [sep].intercalate pieces = join [sep] pieces := by
  induction pieces with
  | nil => rfl
  | cons piece pieces ih =>
      cases pieces with
      | nil => simp [join]
      | cons second pieces => rw [List.intercalate_cons_cons, ih, join_cons_cons]

/-- A text without blanks at its ends. -/
theorem trim_eq_self (hfirst : ∀ c ∈ cs.head?, isBlank c = false) (hlast : ∀ c ∈ cs.getLast?, isBlank c = false) :
    trim cs = cs := by
  have hkeeps : ∀ cs : List Char, (∀ c ∈ cs.head?, isBlank c = false) → cs.dropWhile isBlank = cs := by
    intro cs hcs
    cases cs with
    | nil => rfl
    | cons c cs => rw [List.dropWhile_cons_of_neg (by simp [hcs c rfl])]
  rw [trim, trimStart, hkeeps cs hfirst, trimEnd, hkeeps cs.reverse, List.reverse_reverse]
  rwa [List.head?_reverse]

end Text

/-! ### Plain paths -/

namespace UnitPath

variable {names names' : List String}

/-- A relative path without backslashes, and without blanks at its ends. -/
structure Plain (path : String) : Prop where
  backslash : '\\' ∉ path.toList
  first : ∀ c ∈ path.toList.head?, Text.isBlank c = false
  last : ∀ c ∈ path.toList.getLast?, Text.isBlank c = false

instance (path : String) : Decidable (Plain path) :=
  decidable_of_iff ('\\' ∉ path.toList ∧ path.toList.head?.all (fun c => !Text.isBlank c) = true
      ∧ path.toList.getLast?.all (fun c => !Text.isBlank c) = true)
    (by
      simp only [Option.all_eq_true, Bool.not_eq_true']
      exact ⟨fun h => ⟨h.1, h.2.1, h.2.2⟩, fun h => ⟨h.backslash, h.first, h.last⟩⟩)

theorem toList_intercalate (names : List String) :
    (String.intercalate "/" names).toList = Text.join ['/'] (names.map String.toList) := by
  rw [String.toList_intercalate]
  exact Text.intercalate_eq_join '/' _

theorem splitOn_intercalate (hsome : names ≠ []) (hnames : ∀ name ∈ names, IsName name) :
    Text.splitOn '/' (String.intercalate "/" names).toList = names.map String.toList := by
  rw [toList_intercalate, Text.splitOn_join (by simpa using hsome)]
  intro piece hpiece
  obtain ⟨name, hname, rfl⟩ := List.mem_map.mp hpiece
  exact (hnames name hname).2.2.2

/-- Names can be read off their path. -/
theorem intercalate_inj (hsome : names ≠ []) (hsome' : names' ≠ []) (hnames : ∀ name ∈ names, IsName name)
    (hnames' : ∀ name ∈ names', IsName name)
    (hsame : String.intercalate "/" names = String.intercalate "/" names') : names = names' := by
  have hpieces := splitOn_intercalate hsome hnames
  rw [hsame, splitOn_intercalate hsome' hnames'] at hpieces
  exact (List.map_injective_iff.mpr fun _ _ => String.toList_inj.mp) hpieces.symm

/-- Names that are plain make a plain path. -/
theorem Plain.intercalate (hnames : ∀ name ∈ names, IsName name ∧ Plain name) :
    Plain (String.intercalate "/" names) := by
  induction names with
  | nil => exact ⟨List.not_mem_nil, nofun, nofun⟩
  | cons name names ih =>
      rw [List.forall_mem_cons] at hnames
      obtain ⟨⟨hname, hplain⟩, hnames⟩ := hnames
      cases names with
      | nil => exact hplain
      | cons second names =>
          have hrest := ih hnames
          have hsome : (String.intercalate "/" (second :: names)).toList ≠ [] := by
            intro hnil
            have hpieces := splitOn_intercalate (List.cons_ne_nil second names) fun other hother =>
              (hnames other hother).1
            rw [hnil, List.map_cons] at hpieces
            exact (hnames second List.mem_cons_self).1.toList_ne_nil (List.cons.inj hpieces).1.symm
          rw [String.intercalate_cons_cons]
          refine ⟨?_, ?_, ?_⟩
          · simp only [String.toList_append, List.mem_append, not_or]
            exact ⟨⟨hplain.backslash, by decide⟩, hrest.backslash⟩
          · rw [String.append_assoc, String.toList_append, List.head?_append_of_ne_nil _ hname.toList_ne_nil]
            exact hplain.first
          · rw [String.toList_append, List.getLast?_append_of_ne_nil _ hsome]
            exact hrest.last

/-- Segments that name something, joined without blanks at the ends, are read off again. -/
theorem normalize_join {pieces : List (List Char)} (hnaming : ∀ piece ∈ pieces, isNaming piece = true ∧ '/' ∉ piece)
    (hbackslash : '\\' ∉ Text.join ['/'] pieces)
    (htrim : Text.trim (Text.join ['/'] pieces) = Text.join ['/'] pieces) :
    normalize (String.ofList (Text.join ['/'] pieces)) = String.ofList (Text.join ['/'] pieces) := by
  have hslash : (Text.join ['/'] pieces).map slash = Text.join ['/'] pieces := by
    refine (List.map_congr_left fun c hc => ?_).trans (List.map_id _)
    rw [slash, if_neg]
    · rfl
    · rintro rfl
      exact hbackslash hc
  have hpieces : (Text.splitOn '/' (Text.join ['/'] pieces)).filter isNaming = pieces := by
    cases pieces with
    | nil => rfl
    | cons piece pieces =>
        rw [Text.splitOn_join (List.cons_ne_nil _ _) fun piece hpiece => (hnaming piece hpiece).2,
          List.filter_eq_self]
        exact fun piece hpiece => (hnaming piece hpiece).1
  rw [normalize, segments, String.toList_ofList, htrim, hslash, hpieces]

/-- **A plain path is a unit path** as it is. -/
theorem normalize_intercalate (hnames : ∀ name ∈ names, IsName name)
    (hplain : Plain (String.intercalate "/" names)) :
    normalize (String.intercalate "/" names) = String.intercalate "/" names := by
  have hjoin := toList_intercalate names
  have hnaming : ∀ piece ∈ names.map String.toList, isNaming piece = true ∧ '/' ∉ piece := by
    intro piece hpiece
    obtain ⟨name, hname, rfl⟩ := List.mem_map.mp hpiece
    have hdot : name.toList ≠ ['.'] := fun hdot => (hnames name hname).2.1 (String.toList_inj.mp hdot)
    rw [isNaming, Bool.and_eq_true, bne_iff_ne, Bool.not_eq_true', List.isEmpty_eq_false_iff]
    exact ⟨⟨(hnames name hname).toList_ne_nil, hdot⟩, (hnames name hname).2.2.2⟩
  have hback := normalize_join hnaming (hjoin ▸ hplain.backslash)
    (hjoin ▸ Text.trim_eq_self hplain.first hplain.last)
  rwa [← hjoin, String.ofList_toList] at hback

end UnitPath

namespace DiskPath

variable {base root : DiskPath} {names : List String}

theorem isAbsolute_intercalate (hnames : ∀ name ∈ names, IsName name) :
    isAbsolute (String.intercalate "/" names) = false := by
  cases names with
  | nil => rfl
  | cons name names =>
      have hparts := UnitPath.splitOn_intercalate (List.cons_ne_nil _ _) hnames
      rw [isAbsolute, beq_eq_false_iff_ne]
      intro hhead
      obtain ⟨rest, hrest⟩ := List.head?_eq_some_iff.mp hhead
      rw [hrest, Text.splitOn, if_pos rfl, List.map_cons] at hparts
      exact (hnames name List.mem_cons_self).toList_ne_nil (List.cons.inj hparts).1.symm

/-- A longer relative path leads on from where the shorter one leads. -/
theorem join_append {path : DiskPath} (hpath : isAbsolute path = false) {text : String}
    (hall : isAbsolute (path ++ text) = false) : join base (path ++ text) = join base path ++ text := by
  rw [join, join, hpath, hall]
  split
  · rfl
  · split
    · rw [String.append_assoc]
    · rw [String.append_assoc, String.append_assoc, String.append_assoc]

/-- Behind a name, a slash comes before the next one. -/
theorem join_join (base : DiskPath) {name : String} (hname : IsName name) {path : DiskPath}
    (hpath : isAbsolute path = false) : join (join base name) path = join base name ++ "/" ++ path := by
  have hends : ∃ front, join base name = front ++ name := by
    rw [join]
    split
    · exact ⟨"", (String.empty_append).symm⟩
    · split
      · exact ⟨base, rfl⟩
      · exact ⟨base ++ "/", rfl⟩
  obtain ⟨front, hfront⟩ := hends
  have hlast : (join base name).toList.getLast? ≠ some '/' := by
    rw [hfront, String.toList_append, List.getLast?_append_of_ne_nil _ hname.toList_ne_nil]
    exact fun hslash => hname.2.2.2 (List.mem_of_getLast? hslash)
  have hsome : (join base name).isEmpty = false := by
    rw [Bool.eq_false_iff]
    intro hempty
    rw [String.isEmpty_iff.mp hempty] at hfront
    have hnone := congrArg String.toList hfront
    rw [String.toList_append] at hnone
    exact hname.toList_ne_nil (List.append_eq_nil_iff.mp hnone.symm).2
  rw [join, hpath, hsome, if_neg (by decide), if_neg hlast]

/-- **Back to the file**: the names that lead to it, as one relative path. -/
theorem join_intercalate (hsome : names ≠ []) (hnames : ∀ name ∈ names, IsName name) :
    join root (String.intercalate "/" names) = below root names := by
  induction names using List.reverseRecOn with
  | nil => exact absurd rfl hsome
  | append_singleton names name ih =>
      have hall := isAbsolute_intercalate hnames
      rw [List.forall_mem_append, List.forall_mem_singleton] at hnames
      rw [below_concat]
      cases names using List.reverseRecOn with
      | nil => rfl
      | append_singleton above last =>
          have hname : String.intercalate "/" [name] = name := rfl
          have hlast := hnames.1 last (List.mem_append_right _ (List.mem_singleton_self last))
          rw [String.intercalate_append_of_ne_nil (by simp) (by simp), hname, String.append_assoc] at hall ⊢
          rw [join_append (isAbsolute_intercalate hnames.1) hall, ih (by simp) hnames.1, below_concat,
            join_join _ hlast hnames.2.isAbsolute_eq, String.append_assoc]

end DiskPath

/-! ### Units and files -/

namespace Storage

variable {σ : Type} [Storage σ] {s : σ} {root : DiskPath} {u : UnitPath} {file other : List String}

/-- A unit path is made from the names that lead to a file below a directory. -/
def IsKeyOf (s : σ) (root : DiskPath) (u : UnitPath) (file : List String) : Prop :=
  FileBelow s root file ∧ DiskPath.unitPathUnder? root (below root file) = some u

/-- The names that lead to a file, as one relative path, are plain. -/
def IsPlain (file : List String) : Prop :=
  UnitPath.Plain (String.intercalate "/" file)

theorem FileBelow.ne_nil (h : FileBelow s root file) : file ≠ [] := by
  obtain ⟨above, name, rfl, _⟩ := h
  simp

/-- The unit path of a file with plain names. -/
theorem IsKeyOf.eq_intercalate (h : IsKeyOf s root u file) (hplain : IsPlain file) :
    u = String.intercalate "/" file := by
  obtain ⟨hbelow, hkey⟩ := h
  rw [DiskPath.unitPathUnder?_below hbelow.isName,
    UnitPath.normalize_intercalate hbelow.isName hplain] at hkey
  exact (Option.some.inj hkey).symm

/-- **Plain names, one file.** -/
theorem IsKeyOf.unique (h : IsKeyOf s root u file) (h' : IsKeyOf s root u other) (hplain : IsPlain file)
    (hplain' : IsPlain other) : other = file :=
  UnitPath.intercalate_inj h'.1.ne_nil h.1.ne_nil h'.1.isName h.1.isName
    ((h'.eq_intercalate hplain').symm.trans (h.eq_intercalate hplain))

theorem IsKeyOf.join_eq (h : IsKeyOf s root u file) (hplain : IsPlain file) :
    DiskPath.join root u = below root file := by
  rw [h.eq_intercalate hplain, DiskPath.join_intercalate h.1.ne_nil h.1.isName]

end Storage

namespace ProjectHost

open Storage (ListsNames IsKeyOf IsPlain FileBelow)

variable {σ : Type} [Storage σ] {h after : ProjectHost σ} {snapshot : Snapshot}

/-- **A unit path names its file.**  Take a project whose directories are listed by the names of what is in
them.  Each unit path `u` that its scan returns is the key of a file below the root, one that the scan accepts.

Suppose that no file with this key has a path below the root with a backslash in it, or with white space at
its ends.  Then it is the key of no other file, and is returned once; `u` behind the root is the file; and
after a snapshot the host knows under `u` what it has read from the file. -/
theorem unit_names_file (hlists : ListsNames h.storage) (hknown : Faithful h.units)
    (htake : h.takeSnapshot = (.ok snapshot, after)) :
    ∃ units, h.matcher.scan h.storage h.root = .ok units
      ∧ ∀ u ∈ units, h.matcher.isMatch u = true
        ∧ ∃ file, IsKeyOf h.storage h.root u file
          ∧ ((∀ other, IsKeyOf h.storage h.root u other → IsPlain other) →
            (∀ other, IsKeyOf h.storage h.root u other → other = file)
              ∧ units.count u = 1
              ∧ DiskPath.join h.root u = below h.root file
              ∧ after.units.lookup u = some (.ofRead (Storage.readText h.storage (below h.root file)))) := by
  obtain ⟨units, hscan, _⟩ := eq_of_takeSnapshot htake
  obtain ⟨_, files, hnodup, hbelow, hunits, _⟩ := Matcher.exists_files_of_scan hlists hscan
  refine ⟨units, hscan, fun u hu => ?_⟩
  obtain ⟨file, hfile, hunit⟩ := List.mem_filterMap.mp (hunits.mem_iff.mp hu)
  obtain ⟨hkey, hmatch⟩ := (Option.filter_eq_some_iff).mp hunit
  have hkeyOf : IsKeyOf h.storage h.root u file := ⟨hbelow file hfile, hkey⟩
  refine ⟨hmatch, file, hkeyOf, fun hplain => ?_⟩
  have hunique : ∀ other, IsKeyOf h.storage h.root u other → other = file := fun other hother =>
    hkeyOf.unique hother (hplain file hkeyOf) (hplain other hother)
  have hjoin := hkeyOf.join_eq (hplain file hkeyOf)
  refine ⟨hunique, ?_, hjoin, ?_⟩
  · have hsame : ∀ other ∈ files,
        (h.matcher.unitOf? h.root (below h.root other) == some u) = true ↔ (other == file) = true := by
      intro other hother
      rw [beq_iff_eq, beq_iff_eq]
      constructor
      · intro hfound
        exact hunique other ⟨hbelow other hother, ((Option.filter_eq_some_iff).mp hfound).1⟩
      · rintro rfl
        exact hunit
    rw [hunits.count_eq, List.count_filterMap, List.countP_congr hsame]
    exact List.count_eq_one_of_mem hnodup hfile
  · rw [lookup_takeSnapshot hknown htake, fileAt_of_scan hscan, if_pos hu, hjoin]
    rfl

end ProjectHost

/-! ### Trees of files -/

namespace FileTree

variable {t : FileTree}

/-- In a tree of plain names, all files have plain paths. -/
theorem isPlain_of_names {root : DiskPath} {file : List String} (h : Named t)
    (hnames : ∀ l ∈ t.entries.map (·.1), ∀ name ∈ l, UnitPath.Plain name)
    (hfile : Storage.FileBelow t root file) : Storage.IsPlain file := by
  have hplain : ∀ {dir name}, Storage.Holds t dir name → IsName name ∧ UnitPath.Plain name := by
    intro dir name hholds
    obtain ⟨l, _, hmem⟩ := h.exists_location_of_holds hholds
    exact ⟨hholds.1, hnames _ hmem name (List.mem_append_right _ (List.mem_singleton_self name))⟩
  have hleads : ∀ {above}, Storage.Leads t root above → ∀ name ∈ above, IsName name ∧ UnitPath.Plain name := by
    intro above hlead
    induction hlead with
    | here => nofun
    | into _ hholds _ ih => exact List.forall_mem_append.mpr ⟨ih, List.forall_mem_singleton.mpr (hplain hholds)⟩
  obtain ⟨above, name, rfl, hlead, hholds, _⟩ := hfile
  exact UnitPath.Plain.intercalate
    (List.forall_mem_append.mpr ⟨hleads hlead, List.forall_mem_singleton.mpr (hplain hholds)⟩)

end FileTree

namespace Plainly

def tree : FileTree where
  entries := [(["p"], none), (["p", "a.unit"], some []), (["p", "sub"], none), (["p", "sub", "b c.unit"], some [])]

def host : ProjectHost FileTree where
  storage := tree
  root := "p"
  matcher := .everything
  outDir := "out"
  includeInferred := true

theorem named_tree : FileTree.Named tree :=
  ⟨by decide, by decide, by decide⟩

theorem scan_host : host.matcher.scan host.storage host.root = .ok ["a.unit", "sub/b c.unit"] := by
  refine Matcher.scan_of_sorted ?_ (by decide)
  decide +kernel

end Plainly

/-- Each of the two units names its file. -/
theorem ProjectHost.unit_names_file_plainly :
    ∃ snapshot after, Plainly.host.takeSnapshot = (.ok snapshot, after)
      ∧ ∀ u ∈ ["a.unit", "sub/b c.unit"], ∃ file, Storage.IsKeyOf Plainly.tree "p" u file
        ∧ (∀ other, Storage.IsKeyOf Plainly.tree "p" u other → other = file)
        ∧ DiskPath.join "p" u = below "p" file
        ∧ after.units.lookup u = some (.ofRead (Storage.readText Plainly.tree (below "p" file))) := by
  obtain ⟨snapshot, after, htake⟩ := exists_takeSnapshot Plainly.scan_host
  have hlists : Storage.ListsNames Plainly.host.storage := Plainly.named_tree.listsNames
  have hnames : ∀ l ∈ Plainly.tree.entries.map (·.1), ∀ name ∈ l, UnitPath.Plain name := by decide
  obtain ⟨units, hscan, hunits⟩ := unit_names_file hlists faithful_nil htake
  rw [Plainly.scan_host] at hscan
  cases hscan
  refine ⟨snapshot, after, htake, fun u hu => ?_⟩
  obtain ⟨_, file, hkey, hplain⟩ := hunits u hu
  obtain ⟨hunique, _, hjoin, hread⟩ := hplain fun other hother =>
    FileTree.isPlain_of_names Plainly.named_tree hnames hother.1
  exact ⟨file, hkey, hunique, hjoin, hread⟩

/-! ### Other names -/

namespace Misnamed

def tree (name : String) : FileTree where
  entries := [(["p"], none), (["p", name], some [])]

/-- A tree in which a file has a backslash where another one has a slash. -/
def twins : FileTree where
  entries := [(["p"], none), (["p", "a\\b"], some []), (["p", "a"], none), (["p", "a", "b"], some [])]

/-- Names that no unit path stands for. -/
def names : List String :=
  ["a\\b", " a", "a "]

theorem listsNames_tree : (∀ name ∈ names, Storage.ListsNames (tree name)) ∧ Storage.ListsNames twins := by
  have hnamed : ∀ name ∈ names, FileTree.Named (tree name) := by
    intro name hname
    have hkeys : ∀ name ∈ names, ((tree name).entries.map (·.1)).Nodup
        ∧ ∀ l ∈ (tree name).entries.map (·.1), ∀ name ∈ l, IsName name := by
      decide
    exact ⟨(hkeys name hname).1, (hkeys name hname).2, List.forall_mem_nil _⟩
  have htwins : FileTree.Named twins := ⟨by decide, by decide, List.forall_mem_nil _⟩
  exact ⟨fun name hname => (hnamed name hname).listsNames, htwins.listsNames⟩

theorem fileBelow_tree : ∀ name ∈ names, Storage.FileBelow (tree name) "p" [name] := by
  have hfound : ∀ name ∈ names, IsName name ∧ Storage.list (tree name) "p" = .ok [DiskPath.join "p" name]
      ∧ Storage.isDir (tree name) (below "p" [name]) = false
      ∧ Storage.isFile (tree name) (below "p" [name]) = true := by
    decide +kernel
  intro name hname
  obtain ⟨hisName, hlist, hdir, hfile⟩ := hfound name hname
  exact ⟨[], name, rfl, .here, ⟨hisName, _, hlist, List.mem_singleton_self _⟩, hdir, hfile⟩

theorem fileBelow_twins : Storage.FileBelow twins "p" ["a\\b"] ∧ Storage.FileBelow twins "p" ["a", "b"] := by
  have htop : Storage.list twins "p" = .ok ["p/a\\b", "p/a"] := by decide +kernel
  have hsub : Storage.list twins "p/a" = .ok ["p/a/b"] := by decide +kernel
  have hkinds : Storage.isDir twins "p/a\\b" = false ∧ Storage.isFile twins "p/a\\b" = true
      ∧ Storage.isDir twins "p/a" = true
      ∧ Storage.isDir twins "p/a/b" = false ∧ Storage.isFile twins "p/a/b" = true := by
    decide +kernel
  have hlead : Storage.Leads twins "p" ["a"] := .into .here ⟨by decide, _, htop, by decide⟩ hkinds.2.2.1
  exact ⟨⟨[], "a\\b", rfl, .here, ⟨by decide, _, htop, by decide⟩, hkinds.1, hkinds.2.1⟩,
    ⟨["a"], "b", rfl, hlead, ⟨by decide, _, hsub, by decide⟩, hkinds.2.2.2.1, hkinds.2.2.2.2⟩⟩

end Misnamed

/-- **A unit path misses its file.**  Where the name of a file has a backslash in it, or a blank at one of its
ends, the unit that the scan finds leads to no file; and with a backslash in the place of a slash, two files
are found as the same unit. -/
theorem Matcher.unit_misses_file :
    (∀ name ∈ Misnamed.names, Storage.ListsNames (Misnamed.tree name)
      ∧ ∃ u, Matcher.everything.scan (Misnamed.tree name) "p" = .ok [u]
        ∧ Storage.IsKeyOf (Misnamed.tree name) "p" u [name]
        ∧ Storage.isFile (Misnamed.tree name) (DiskPath.join "p" u) = false)
      ∧ Storage.ListsNames Misnamed.twins ∧ Matcher.everything.scan Misnamed.twins "p" = .ok ["a/b", "a/b"]
        ∧ Storage.IsKeyOf Misnamed.twins "p" "a/b" ["a\\b"]
        ∧ Storage.IsKeyOf Misnamed.twins "p" "a/b" ["a", "b"] := by
  constructor
  · intro name hname
    have hfound : ∀ name ∈ Misnamed.names,
        Matcher.everything.scanFrom (Misnamed.tree name) "p" (Storage.entryCount (Misnamed.tree name) + 1) ["p"] []
            = .ok [UnitPath.normalize name]
          ∧ DiskPath.unitPathUnder? "p" (below "p" [name]) = some (UnitPath.normalize name)
          ∧ Storage.isFile (Misnamed.tree name) (DiskPath.join "p" (UnitPath.normalize name)) = false := by
      decide +kernel
    obtain ⟨hscan, hkey, hmissing⟩ := hfound name hname
    exact ⟨Misnamed.listsNames_tree.1 name hname, _,
      Matcher.scan_of_sorted hscan (List.pairwise_singleton _ _), ⟨Misnamed.fileBelow_tree name hname, hkey⟩,
      hmissing⟩
  · have hfound : Matcher.everything.scanFrom Misnamed.twins "p" (Storage.entryCount Misnamed.twins + 1) ["p"] []
          = .ok ["a/b", "a/b"]
        ∧ DiskPath.unitPathUnder? "p" (below "p" ["a\\b"]) = some "a/b"
        ∧ DiskPath.unitPathUnder? "p" (below "p" ["a", "b"]) = some "a/b" := by
      decide +kernel
    exact ⟨Misnamed.listsNames_tree.2, Matcher.scan_of_sorted hfound.1 (by decide),
      ⟨Misnamed.fileBelow_twins.1, hfound.2.1⟩, ⟨Misnamed.fileBelow_twins.2, hfound.2.2⟩⟩

end Rebuild
