import Rebuild.Proofs.Project.Scan
import Rebuild.Storage.FileTree

/-!
# Listing a file tree

A file tree lists the names of what is in a directory, and a path with such a name behind it leads there.  So
a scan comes to no more directories than there are entries.

* `FileTree.Named`: a tree in which everything has a name, and nothing is there twice;
* `FileTree.Named.write`, `FileTree.Named.remove`: files may be written and removed;
* `FileTree.Named.listsNames`: directories are listed by the names of what is in them;
* `FileTree.Named.bounded`: walks through such a tree are bounded.
-/

namespace Rebuild

open DiskPath (IsName below)

namespace FileTree

variable {t : FileTree} {l l' : Location} {dir root path : DiskPath} {name : String} {names : List String}

/-! ### Names in a tree -/

/-- Everything in the tree is at names that a file can be called, and at one place once. -/
structure Named (t : FileTree) : Prop where
  nodup : (t.entries.map (·.1)).Nodup
  isName : ∀ l ∈ t.entries.map (·.1), ∀ name ∈ l, IsName name
  workDir : ∀ name ∈ t.workDir, IsName name

/-- A part of a path is a name, unless it is empty or made of dots. -/
theorem isName_of_mem_parts {part : String} (hpart : part ∈ parts path)
    (hsilent : ¬ (part = "" ∨ part = ".")) (hup : part ≠ "..") : IsName part := by
  rw [not_or] at hsilent
  obtain ⟨piece, hpiece, rfl⟩ := List.mem_map.mp hpart
  refine ⟨hsilent.1, hsilent.2, hup, ?_⟩
  rw [String.toList_ofList]
  exact Text.not_mem_of_mem_splitOn hpiece

theorem isName_startOf (h : Named t) : ∀ name ∈ t.startOf path, IsName name := by
  rw [startOf]
  split
  · exact List.forall_mem_nil _
  · exact h.workDir

/-- To follow parts of a path from a named location leads to a named location. -/
theorem isName_walk? {ps : List String} (hps : ∀ part ∈ ps, part ∈ parts path)
    (hl : ∀ name ∈ l, IsName name) (hwalk : t.walk? l ps = some l') : ∀ name ∈ l', IsName name := by
  induction ps generalizing l with
  | nil =>
      rw [walk?] at hwalk
      cases hwalk
      exact hl
  | cons part ps ih =>
      rw [List.forall_mem_cons] at hps
      rw [walk?] at hwalk
      split at hwalk
      · split at hwalk
        · exact ih hps.2 hl hwalk
        · rename_i hsilent
          split at hwalk
          · exact ih hps.2 (fun name hname => hl name (List.dropLast_subset l hname)) hwalk
          · rename_i hup
            split at hwalk
            · have hname := isName_of_mem_parts hps.1 hsilent hup
              exact ih hps.2 (List.forall_mem_append.mpr ⟨hl, List.forall_mem_singleton.mpr hname⟩) hwalk
            · cases hwalk
      · cases hwalk

namespace Named

theorem put (h : Named t) (hl : ∀ name ∈ l, IsName name) (content : Option (List UInt8)) :
    Named (t.put l content) := by
  have hkept : ∀ other, other ∈ (t.entries.filter (·.1 != l)).map (·.1)
      → other ∈ t.entries.map (·.1) ∧ other ≠ l := by
    intro other hother
    obtain ⟨entry, hentry, rfl⟩ := List.mem_map.mp hother
    obtain ⟨hmem, hne⟩ := List.mem_filter.mp hentry
    exact ⟨List.mem_map_of_mem hmem, by simpa using hne⟩
  refine ⟨?_, ?_, h.workDir⟩
  · show (l :: (t.entries.filter (·.1 != l)).map (·.1)).Nodup
    refine List.nodup_cons.mpr ⟨fun hmem => (hkept l hmem).2 rfl, ?_⟩
    exact h.nodup.sublist (List.filter_sublist.map _)
  · intro other hother
    rcases List.mem_cons.mp hother with rfl | hbefore
    · exact hl
    · exact h.isName other (hkept other hbefore).1

theorem erase (h : Named t) (l : Location) : Named (t.erase l) := by
  have hsublist : ((t.erase l).entries.map (·.1)).Sublist (t.entries.map (·.1)) := List.filter_sublist.map _
  exact ⟨h.nodup.sublist hsublist, fun other hother => h.isName other (hsublist.subset hother), h.workDir⟩

theorem makeDirsFrom {ps : List String} (h : Named t) (hps : ∀ part ∈ ps, part ∈ parts path)
    (hl : ∀ name ∈ l, IsName name) : Named (t.makeDirsFrom l ps).2 := by
  induction ps generalizing t l with
  | nil => exact h
  | cons part ps ih =>
      rw [List.forall_mem_cons] at hps
      rw [FileTree.makeDirsFrom]
      split
      · exact ih h hps.2 hl
      · rename_i hsilent
        split
        · exact ih h hps.2 fun name hname => hl name (List.dropLast_subset l hname)
        · rename_i hup
          have hname := isName_of_mem_parts hps.1 hsilent hup
          have hnext : ∀ name ∈ l ++ [part], IsName name :=
            List.forall_mem_append.mpr ⟨hl, List.forall_mem_singleton.mpr hname⟩
          split
          · exact ih h hps.2 hnext
          · exact h
          · exact ih (h.put hnext none) hps.2 hnext

theorem isName_target? (h : Named t) (htarget : t.target? path = some l) : ∀ name ∈ l, IsName name := by
  rw [target?] at htarget
  split at htarget
  · split at htarget
    · cases htarget
    · rename_i last above hparts
      have hmem : ∀ part ∈ last :: above, part ∈ parts path := by
        intro part hpart
        rw [← hparts] at hpart
        exact List.mem_reverse.mp hpart
      rw [List.forall_mem_cons] at hmem
      split at htarget
      · cases htarget
      · rename_i hplain
        rw [← or_assoc, not_or] at hplain
        split at htarget
        · cases htarget
        · rename_i found hwalk
          split at htarget
          · cases htarget
            have hfound := isName_walk? (fun part hpart => hmem.2 part (List.mem_reverse.mp hpart))
              (isName_startOf h) hwalk
            have hlast := isName_of_mem_parts hmem.1 hplain.1 hplain.2
            exact List.forall_mem_append.mpr ⟨hfound, List.forall_mem_singleton.mpr hlast⟩
          · cases htarget
  · cases htarget

/-- A tree keeps its names when a file is written. -/
theorem write (h : Named t) (path : DiskPath) (content : List UInt8) :
    Named (Storage.write t path content).2 := by
  have hdirs : ∀ above, Named (t.makeDirs above).2 := by
    intro above
    rw [makeDirs]
    split
    · exact h
    · split
      · exact h.makeDirsFrom (fun part hpart => hpart) (isName_startOf h)
      · exact h
  simp only [Storage.write, writeFile]
  have habove := hdirs ((DiskPath.parent? path).getD "")
  rcases hmade : t.makeDirs ((DiskPath.parent? path).getD "") with ⟨made, after⟩
  rw [hmade] at habove
  cases made with
  | false => exact habove
  | true =>
      dsimp only
      split
      · exact habove
      · rename_i l htarget
        exact habove.put (habove.isName_target? htarget) _

/-- A tree keeps its names when a file is removed. -/
theorem remove (h : Named t) (path : DiskPath) : Named (Storage.remove t path).2 := by
  simp only [Storage.remove]
  split
  · exact h
  · split
    · exact h
    · exact h.erase _

end Named

/-! ### Listing -/

/-- The location of a child. -/
theorem key_of_child {key : Location}
    (hname : name ∈ if key.dropLast = l ∧ key ≠ [] then key.getLast? else none) : key = l ++ [name] := by
  split at hname
  · rename_i hhere
    rw [← hhere.1]
    exact (List.dropLast_append_getLast? name hname).symm
  · cases hname

theorem mem_childrenOf : name ∈ t.childrenOf l ↔ l ++ [name] ∈ t.entries.map (·.1) := by
  rw [childrenOf, List.mem_filterMap, List.mem_map]
  refine exists_congr fun entry => and_congr_right fun _ => ?_
  constructor
  · exact key_of_child
  · intro hkey
    rw [hkey, if_pos ⟨List.dropLast_concat, by simp⟩, List.getLast?_concat]

theorem exists_location_of_list {paths : List DiskPath} (hlist : Storage.list t dir = .ok paths) :
    ∃ l, t.dir? dir = some l ∧ paths = (t.childrenOf l).map (DiskPath.join dir) := by
  simp only [Storage.list] at hlist
  split at hlist
  · cases hlist
  · rename_i l hdir
    cases hlist
    exact ⟨l, hdir, rfl⟩

/-- The directories of a tree are listed by the names of what is in them. -/
theorem Named.listsNames (h : Named t) : Storage.ListsNames t := by
  intro dir paths hlist
  obtain ⟨l, _, rfl⟩ := exists_location_of_list hlist
  refine ⟨t.childrenOf l, rfl, ?_, fun name hname => ?_⟩
  · have hlocations : t.childrenOf l = (t.entries.map (·.1)).filterMap fun key =>
        if key.dropLast = l ∧ key ≠ [] then key.getLast? else none := by
      rw [List.filterMap_map]
      rfl
    rw [hlocations]
    refine h.nodup.filterMap fun key key' name hname hname' => ?_
    rw [key_of_child hname, key_of_child hname']
  · exact h.isName _ (mem_childrenOf.mp hname) name (List.mem_append_right _ (List.mem_singleton_self name))

/-- A name that is listed in a directory is in the tree, behind the location of the directory. -/
theorem Named.exists_location_of_holds (h : Named t) (hholds : Storage.Holds t dir name) :
    ∃ l, t.dir? dir = some l ∧ l ++ [name] ∈ t.entries.map (·.1) := by
  obtain ⟨hname, paths, hlist, hmem⟩ := hholds
  obtain ⟨l, hdir, rfl⟩ := exists_location_of_list hlist
  obtain ⟨other, hother, hsame⟩ := List.mem_map.mp hmem
  have hkey := mem_childrenOf.mp hother
  have hisName := h.isName _ hkey other (List.mem_append_right _ (List.mem_singleton_self other))
  rw [← DiskPath.join_inj hisName.isAbsolute_eq hname.isAbsolute_eq hsame]
  exact ⟨l, hdir, hkey⟩

/-! ### Paths with names behind them -/

theorem walk?_append (t : FileTree) (l : Location) (ps qs : List String) :
    t.walk? l (ps ++ qs) = (t.walk? l ps).bind fun found => t.walk? found qs := by
  induction ps generalizing l with
  | nil => rfl
  | cons part ps ih =>
      rw [List.cons_append, walk?, walk?, ih, ih, ih]
      split
      · split
        · rfl
        · split
          · rfl
          · split
            · rfl
            · rfl
      · rfl

/-- A name leads from a location to nothing but the location behind it. -/
theorem walk?_name (hname : IsName name) (hwalk : t.walk? l [name] = some l') : l' = l ++ [name] := by
  rw [walk?, if_neg (not_or.mpr ⟨hname.1, hname.2.1⟩), if_neg hname.2.2.1] at hwalk
  split at hwalk
  · split at hwalk
    · rw [walk?] at hwalk
      exact (Option.some.inj hwalk).symm
    · cases hwalk
  · cases hwalk

theorem parts_append_slash (base text : String) : parts (base ++ "/" ++ text) = parts base ++ parts text := by
  have hchars : (base ++ "/" ++ text).toList = base.toList ++ '/' :: text.toList := by
    rw [String.toList_append, String.toList_append, List.append_assoc]
    rfl
  rw [parts, hchars, Text.splitOn_append_sep, List.map_append]
  rfl

theorem parts_name (hname : IsName name) : parts name = [name] := by
  rw [parts, Text.splitOn_of_not_mem hname.2.2.2, List.map_singleton, String.ofList_toList]

/-- **A name behind a path** leads to the location behind that of the path. -/
theorem locate?_join (hname : IsName name) (hdir : t.locate? dir = some l)
    (hjoin : t.locate? (DiskPath.join dir name) = some l') : l' = l ++ [name] := by
  rw [locate?] at hdir hjoin
  split at hdir
  · rename_i hnamable
    split at hjoin
    · have hsome : dir ≠ "" := by
        intro hempty
        rw [hempty] at hnamable
        cases hnamable
      obtain ⟨front, hsame, hfront⟩ := DiskPath.exists_join_eq hsome hname
      have hstart : t.startOf (DiskPath.join dir name) = t.startOf dir := by
        obtain ⟨rest, hrest⟩ : ∃ rest, DiskPath.join dir name = dir ++ rest := by
          rcases hfront with rfl | rfl
          · exact ⟨"/" ++ name, by rw [hsame, String.append_assoc]⟩
          · exact ⟨name, hsame⟩
        have habsolute : DiskPath.isAbsolute (dir ++ rest) = DiskPath.isAbsolute dir := by
          rw [DiskPath.isAbsolute, DiskPath.isAbsolute, String.toList_append,
            List.head?_append_of_ne_nil _ fun hnil => hsome (String.toList_eq_nil_iff.mp hnil)]
        rw [hrest, startOf, startOf, habsolute]
      rw [hstart, hsame, parts_append_slash, parts_name hname, walk?_append] at hjoin
      obtain ⟨found, hwalk, hlast⟩ := Option.bind_eq_some_iff.mp hjoin
      have hl : found = l := by
        rcases hfront with rfl | rfl
        · exact Option.some.inj (hwalk.symm.trans hdir)
        · -- a slash at the end leads nowhere else
          have hparts : parts (front ++ "/") = parts front ++ [""] := by
            have hslash := parts_append_slash front ""
            rwa [String.append_empty] at hslash
          rw [hparts, walk?_append, hwalk, Option.bind_some, walk?, if_pos (Or.inl rfl), walk?] at hdir
          split at hdir
          · exact Option.some.inj hdir
          · cases hdir
      rw [← hl]
      exact walk?_name hname hlast
    · cases hjoin
  · cases hdir

theorem locate?_of_dir? (hdir : t.dir? dir = some l) : t.locate? dir = some l :=
  (Option.filter_eq_some_iff.mp hdir).1

/-! ### Walks -/

/-- The names that lead to a directory are those behind its location. -/
theorem dir?_of_leads (hroot : t.dir? root = some l) (hlead : Storage.Leads t root names) :
    t.dir? (below root names) = some (l ++ names) := by
  induction hlead with
  | here =>
      rw [List.append_nil]
      exact hroot
  | @into above name _ holds hdir ih =>
      obtain ⟨l', hl'⟩ := Option.isSome_iff_exists.mp hdir
      rw [DiskPath.below_concat] at hl' ⊢
      rw [hl', locate?_join holds.1 (locate?_of_dir? ih) (locate?_of_dir? hl'), List.append_assoc]

/-- **Walks through a tree are bounded**: besides the directory that a walk starts in, it comes to entries
only. -/
theorem Named.bounded (h : Named t) (root : DiskPath) : Storage.Bounded t root := by
  cases hroot : t.dir? root with
  | none =>
      have hfails : Storage.list t root = .error (failure "reading dir" root) := by
        simp only [Storage.list, hroot]
      exact Storage.bounded_of_error hfails
  | some l =>
      have hdirs : ∀ names, Storage.Leads t root names →
          names ∈ [] :: t.entries.map fun entry => entry.1.drop l.length := by
        intro names hlead
        cases hlead with
        | here => exact List.mem_cons_self
        | @into above name hlead holds _ =>
            obtain ⟨l', hl', hmem⟩ := h.exists_location_of_holds holds
            rw [dir?_of_leads hroot hlead] at hl'
            obtain ⟨entry, hentry, hkey⟩ := List.mem_map.mp hmem
            refine List.mem_cons_of_mem _ (List.mem_map.mpr ⟨entry, hentry, ?_⟩)
            rw [hkey, ← Option.some.inj hl', List.append_assoc, List.drop_left]
      refine Storage.bounded_of_leads h.listsNames hdirs ?_
      rw [List.length_cons, List.length_map]
      exact Nat.le_refl _

end FileTree

end Rebuild
