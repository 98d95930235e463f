import Mathlib.Data.List.Induction
import Rebuild.Proofs.Project.Outputs
import Rebuild.Storage.FileTable

/-!
# Names below a directory

What a directory lists are names, and a name behind a path is one component more.  So the names on the way
from a directory to a file below it can be read off the path of the file.

* `DiskPath.IsName`: a text that a file can be called;
* `DiskPath.components_join`: a name behind a path;
* `DiskPath.below`: the path that several names lead to;
* `DiskPath.unitPathUnder?_below`: what such a path says about the names;
* `FileTable.IsKey`: the keys of paths that do not go up.
-/

namespace Rebuild

/-! ### Pieces of texts -/

namespace Text

variable {sep : Char} {xs ys : List Char}

theorem splitOn_ne_nil (sep : Char) (xs : List Char) : splitOn sep xs ≠ [] := by
  cases xs with
  | nil => exact List.cons_ne_nil _ _
  | cons c xs =>
      rw [splitOn]
      split
      · exact List.cons_ne_nil _ _
      · split
        · exact List.cons_ne_nil _ _
        · exact List.cons_ne_nil _ _

theorem splitOn_append_sep (sep : Char) (xs ys : List Char) :
    splitOn sep (xs ++ sep :: ys) = splitOn sep xs ++ splitOn sep ys := by
  induction xs with
  | nil =>
      rw [List.nil_append, splitOn.eq_2, if_pos rfl]
      rfl
  | cons c xs ih =>
      rw [List.cons_append, splitOn, splitOn, ih]
      split
      · rfl
      · obtain ⟨piece, pieces, hpieces⟩ := List.exists_cons_of_ne_nil (splitOn_ne_nil sep xs)
        rw [hpieces]
        rfl

theorem splitOn_of_not_mem (hxs : sep ∉ xs) : splitOn sep xs = [xs] := by
  induction xs with
  | nil => rfl
  | cons c xs ih =>
      rw [List.mem_cons, not_or] at hxs
      rw [splitOn, if_neg (Ne.symm hxs.1), ih hxs.2]

end Text

/-! ### Names -/

namespace DiskPath

variable {base root : DiskPath} {name : String} {names names' : List String}

/-- A text that a file can be called. -/
def IsName (name : String) : Prop :=
  name ≠ "" ∧ name ≠ "." ∧ name ≠ ".." ∧ '/' ∉ name.toList

instance (name : String) : Decidable (IsName name) :=
  inferInstanceAs (Decidable (_ ∧ _ ∧ _ ∧ _))

theorem IsName.toList_ne_nil (hname : IsName name) : name.toList ≠ [] := by
  intro hnil
  exact hname.1 (String.toList_eq_nil_iff.mp hnil)

theorem IsName.isAbsolute_eq (hname : IsName name) : isAbsolute name = false := by
  rw [isAbsolute, beq_eq_false_iff_ne]
  intro hhead
  exact hname.2.2.2 (List.mem_of_head? hhead)

/-- The component that a name is. -/
theorem IsName.ofPart?_eq (hname : IsName name) : Component.ofPart? name.toList = some (.name name) := by
  have hne : ∀ other : String, name ≠ other → (name.toList == other.toList) = false := by
    intro other hother
    rw [beq_eq_false_iff_ne]
    exact fun hsame => hother (String.toList_inj.mp hsame)
  have hempty : name.toList.isEmpty = false := List.isEmpty_eq_false_iff.mpr hname.toList_ne_nil
  have hdot : (name.toList == ['.']) = false := hne "." hname.2.1
  have hdots : (name.toList == ['.', '.']) = false := hne ".." hname.2.2.1
  rw [Component.ofPart?, hempty, hdot, hdots, String.ofList_toList]
  rfl

/-- What a part of a path can stand for. -/
theorem ofPart?_cases {part : List Char} {c : Component} (hpart : Component.ofPart? part = some c) :
    c = .up ∨ ∃ name, c = .name name := by
  rw [Component.ofPart?] at hpart
  split at hpart
  · cases hpart
  · split at hpart
    · exact .inl (Option.some.inj hpart).symm
    · exact .inr ⟨_, (Option.some.inj hpart).symm⟩

/-- The parts of a path that are names. -/
theorem isName_of_ofPart? {part : List Char} (hslash : '/' ∉ part)
    (hpart : Component.ofPart? part = some (.name name)) : IsName name := by
  rw [Component.ofPart?] at hpart
  split at hpart
  · cases hpart
  · rename_i hsilent
    split at hpart
    · cases hpart
    · rename_i hup
      cases hpart
      rw [Bool.or_eq_true, not_or, List.isEmpty_iff, beq_iff_eq] at hsilent
      rw [beq_iff_eq] at hup
      have hne : ∀ other : String, part ≠ other.toList → String.ofList part ≠ other := by
        rintro other hother rfl
        exact hother (String.toList_ofList).symm
      refine ⟨hne "" hsilent.1, hne "." hsilent.2, hne ".." hup, ?_⟩
      rwa [String.toList_ofList]

/-- What a path starts with, where `first` is its first part. -/
def front (path : DiskPath) (first : List Char) : List Component :=
  if path.toList.head? = some '/' then [.root]
  else if first = ['.'] then [.current]
  else (Component.ofPart? first).toList

theorem components_of_splitOn {path : DiskPath} {first : List Char} {rest : List (List Char)}
    (hparts : Text.splitOn '/' path.toList = first :: rest) :
    components path = front path first ++ rest.filterMap Component.ofPart? := by
  rw [components, hparts, front]
  dsimp only
  split
  · rfl
  · split
    · rfl
    · rfl

/-- More parts are more components. -/
theorem components_append_slash (hbase : base ≠ "") (text : String) :
    components (base ++ "/" ++ text)
      = components base ++ (Text.splitOn '/' text.toList).filterMap Component.ofPart? := by
  have hchars : (base ++ "/" ++ text).toList = base.toList ++ '/' :: text.toList := by
    rw [String.toList_append, String.toList_append, List.append_assoc]
    rfl
  have hhead : (base ++ "/" ++ text).toList.head? = base.toList.head? := by
    rw [hchars]
    cases hcs : base.toList with
    | nil => exact absurd (String.toList_eq_nil_iff.mp hcs) hbase
    | cons c cs => rfl
  obtain ⟨first, rest, hparts⟩ := List.exists_cons_of_ne_nil (Text.splitOn_ne_nil '/' base.toList)
  have hall : Text.splitOn '/' (base ++ "/" ++ text).toList = first :: (rest ++ Text.splitOn '/' text.toList) := by
    rw [hchars, Text.splitOn_append_sep, hparts, List.cons_append]
  rw [components_of_splitOn hall, components_of_splitOn hparts, front, front, hhead, List.filterMap_append,
    List.append_assoc]

theorem filterMap_ofPart?_of_isName (hname : IsName name) :
    (Text.splitOn '/' name.toList).filterMap Component.ofPart? = [.name name] := by
  rw [Text.splitOn_of_not_mem hname.2.2.2, List.filterMap_cons_some hname.ofPart?_eq]
  rfl

theorem components_of_isName (hname : IsName name) : components name = [.name name] := by
  have hhead : ¬ name.toList.head? = some '/' := by
    intro hhead
    exact hname.2.2.2 (List.mem_of_head? hhead)
  have hdot : ¬ name.toList = ['.'] := by
    intro hdot
    exact hname.2.1 (String.toList_inj.mp hdot)
  rw [components_of_splitOn (Text.splitOn_of_not_mem hname.2.2.2), front, if_neg hhead, if_neg hdot,
    hname.ofPart?_eq]
  rfl

theorem components_slash_name (hname : IsName name) : components ("/" ++ name) = [.root, .name name] := by
  have hparts : Text.splitOn '/' ("/" ++ name).toList = [] :: Text.splitOn '/' name.toList := by
    rw [String.toList_append]
    exact Text.splitOn_append_sep '/' [] name.toList
  have hhead : ("/" ++ name).toList.head? = some '/' := by
    rw [String.toList_append]
    rfl
  rw [components_of_splitOn hparts, front, if_pos hhead, filterMap_ofPart?_of_isName hname]
  rfl

/-- A name is put behind a path with a slash, unless the path ends in one. -/
theorem exists_join_eq (hbase : base ≠ "") (hname : IsName name) :
    ∃ front, join base name = front ++ "/" ++ name ∧ (base = front ∨ base = front ++ "/") := by
  have hempty : base.isEmpty = false := by
    rw [Bool.eq_false_iff, ne_eq, String.isEmpty_iff]
    exact hbase
  rw [join, hname.isAbsolute_eq, hempty, Bool.or_self, if_neg Bool.false_ne_true]
  split
  · rename_i hslash
    obtain ⟨cs, hcs⟩ := List.getLast?_eq_some_iff.mp hslash
    have hchars : base = String.ofList cs ++ "/" := by
      rw [← String.toList_inj, String.toList_append, String.toList_ofList, hcs]
      rfl
    exact ⟨String.ofList cs, by rw [hchars], .inr hchars⟩
  · exact ⟨base, rfl, .inl rfl⟩

/-- **A name behind a path** is one component more. -/
theorem components_join (base : DiskPath) (hname : IsName name) :
    components (join base name) = components base ++ [.name name] := by
  by_cases hbase : base = ""
  · subst hbase
    rw [join, hname.isAbsolute_eq]
    exact components_of_isName hname
  · obtain ⟨front, hjoin, hfront⟩ := exists_join_eq hbase hname
    rw [hjoin]
    by_cases hnone : front = ""
    · have hroot : base = "/" := by
        subst hnone
        exact hfront.resolve_left hbase
      rw [hroot, hnone]
      exact components_slash_name hname
    · have hend : components (front ++ "/") = components front := by
        have hslash := components_append_slash hnone ""
        rw [String.append_empty] at hslash
        rw [hslash]
        exact List.append_nil _
      rw [components_append_slash hnone, filterMap_ofPart?_of_isName hname]
      rcases hfront with rfl | rfl
      · rfl
      · rw [hend]

/-! ### Several names -/

/-- The path that several names lead to, one after the other. -/
def below (root : DiskPath) (names : List String) : DiskPath :=
  names.foldl join root

theorem below_concat (root : DiskPath) (names : List String) (name : String) :
    below root (names ++ [name]) = join (below root names) name := by
  rw [below, List.foldl_append]
  rfl

theorem components_below (hnames : ∀ name ∈ names, IsName name) :
    components (below root names) = components root ++ names.map .name := by
  induction names using List.reverseRecOn with
  | nil => exact (List.append_nil _).symm
  | append_singleton names name ih =>
      rw [List.forall_mem_append, List.forall_mem_singleton] at hnames
      rw [below_concat, components_join _ hnames.2, ih hnames.1, List.map_append, List.append_assoc]
      rfl

theorem after?_append {α : Type} [DecidableEq α] (xs ys : List α) : after? xs (xs ++ ys) = some ys := by
  induction xs with
  | nil => rfl
  | cons x xs ih => rw [List.cons_append, after?, if_pos rfl, ih]

/-- **The unit path of a file** is made of the names that lead to it. -/
theorem unitPathUnder?_below (hnames : ∀ name ∈ names, IsName name) :
    unitPathUnder? root (below root names) = some (UnitPath.normalize (String.intercalate "/" names)) := by
  have htexts : (names.map Component.name).map Component.text = names := by
    rw [List.map_map]
    exact List.map_id names
  rw [unitPathUnder?, components_below hnames, after?_append, Option.map_some, htexts]

/-- The components of a path: names and double dots, and one of two things that it may start with. -/
theorem components_cases (path : DiskPath) :
    ∃ start ∈ [[], [.root], [.current]], ∃ tail, components path = start ++ tail
      ∧ ∀ c ∈ tail, c = .up ∨ ∃ name, c = .name name ∧ IsName name := by
  have hpart : ∀ part ∈ Text.splitOn '/' path.toList, ∀ c, Component.ofPart? part = some c →
      c = .up ∨ ∃ name, c = .name name ∧ IsName name := by
    intro part hpart c hc
    rcases ofPart?_cases hc with rfl | ⟨name, rfl⟩
    · exact .inl rfl
    · exact .inr ⟨name, rfl, isName_of_ofPart? (Text.not_mem_of_mem_splitOn hpart) hc⟩
  obtain ⟨first, rest, hparts⟩ := List.exists_cons_of_ne_nil (Text.splitOn_ne_nil '/' path.toList)
  rw [hparts, List.forall_mem_cons] at hpart
  have htail : ∀ c ∈ rest.filterMap Component.ofPart?, c = .up ∨ ∃ name, c = .name name ∧ IsName name := by
    intro c hc
    obtain ⟨part, hmem, hfound⟩ := List.mem_filterMap.mp hc
    exact hpart.2 part hmem c hfound
  rw [components_of_splitOn hparts, front]
  split
  · exact ⟨[.root], by decide, _, rfl, htail⟩
  · split
    · exact ⟨[.current], by decide, _, rfl, htail⟩
    · refine ⟨[], by decide, _, rfl, fun c hc => ?_⟩
      rcases List.mem_append.mp hc with hfirst | hlater
      · exact hpart.1 c (Option.mem_toList.mp hfirst)
      · exact htail c hlater

end DiskPath

/-! ### Keys -/

namespace FileTable

open DiskPath (IsName below components)

variable {k : List Component} {path root : DiskPath} {name : String} {names : List String}

/-- A key of names, below the working directory or the root directory. -/
inductive IsKey : List Component → Prop
  | workDir : IsKey []
  | root : IsKey [.root]
  | child {k : List Component} {name : String} (parent : IsKey k) (hname : IsName name) : IsKey (k ++ [.name name])

theorem IsKey.append (hk : IsKey k) (hnames : ∀ name ∈ names, IsName name) : IsKey (k ++ names.map .name) := by
  induction names using List.reverseRecOn with
  | nil => rwa [List.map_nil, List.append_nil]
  | append_singleton names name ih =>
      rw [List.forall_mem_append, List.forall_mem_singleton] at hnames
      rw [List.map_append, ← List.append_assoc]
      exact .child (ih hnames.1) hnames.2

/-- How a key with a component at its end is put together. -/
theorem IsKey.concat_cases {c : Component} (hk : IsKey (k ++ [c])) :
    (k = [] ∧ c = .root) ∨ ∃ name, c = .name name ∧ IsKey k ∧ IsName name := by
  generalize hkey : k ++ [c] = key at hk
  cases hk with
  | workDir => simp at hkey
  | root =>
      have hends : k = [] ∧ [c] = [.root] := (List.append_eq_singleton_iff.mp hkey).resolve_right (by simp)
      exact .inl ⟨hends.1, List.singleton_inj.mp hends.2⟩
  | child parent hname =>
      obtain ⟨rfl, hlast⟩ := List.append_inj' hkey rfl
      exact .inr ⟨_, List.singleton_inj.mp hlast, parent, hname⟩

theorem IsKey.of_child (hk : IsKey (k ++ [.name name])) : IsKey k ∧ IsName name := by
  rcases hk.concat_cases with ⟨_, hroot⟩ | ⟨_, hlast, hkey⟩
  · cases hroot
  · cases hlast
    exact hkey

theorem IsKey.isName (hk : IsKey k) (hmem : .name name ∈ k) : IsName name := by
  induction hk with
  | workDir => cases hmem
  | root => cases List.mem_singleton.mp hmem
  | child _ hname ih =>
      rcases List.mem_append.mp hmem with hbefore | hlast
      · exact ih hbefore
      · cases List.mem_singleton.mp hlast
        exact hname

/-- A path that does not go up has such a key. -/
theorem isKey_key (hup : .up ∉ components path) : IsKey (key path) := by
  obtain ⟨start, hstart, tail, hcomponents, htail⟩ := DiskPath.components_cases path
  rw [hcomponents, List.mem_append, not_or] at hup
  -- without double dots, the rest of the path is names
  have hnames : ∃ names : List String, (∀ name ∈ names, IsName name) ∧ tail = names.map .name := by
    clear hcomponents
    induction tail with
    | nil => exact ⟨[], nofun, rfl⟩
    | cons c tail ih =>
        rw [List.forall_mem_cons] at htail
        rw [List.mem_cons, not_or] at hup
        obtain ⟨names, hnames, rfl⟩ := ih ⟨hup.1, hup.2.2⟩ htail.2
        rcases htail.1 with rfl | ⟨name, rfl, hname⟩
        · exact absurd rfl hup.2.1
        · exact ⟨name :: names, List.forall_mem_cons.mpr ⟨hname, hnames⟩, rfl⟩
  obtain ⟨names, hnames, rfl⟩ := hnames
  have hkept : (names.map Component.name).filter (· != .current) = names.map .name := by
    rw [List.filter_eq_self]
    simp
  rw [key, hcomponents, List.filter_append, hkept]
  simp only [List.mem_cons, List.not_mem_nil, or_false] at hstart
  rcases hstart with rfl | rfl | rfl
  · exact IsKey.workDir.append hnames
  · exact IsKey.root.append hnames
  · exact IsKey.workDir.append hnames

theorem key_join (base : DiskPath) (hname : IsName name) :
    key (DiskPath.join base name) = key base ++ [.name name] := by
  rw [key, DiskPath.components_join base hname, List.filter_append, key]
  rfl

theorem key_below (hnames : ∀ name ∈ names, IsName name) :
    key (below root names) = key root ++ names.map .name := by
  have hkept : ∀ c ∈ names.map Component.name, (c != .current) = true := by
    intro c hc
    obtain ⟨name, _, rfl⟩ := List.mem_map.mp hc
    rfl
  rw [key, DiskPath.components_below hnames, List.filter_append, List.filter_eq_self.mpr hkept, key]

/-- Absolute paths are those with keys below the root directory. -/
theorem root_mem_key (path : DiskPath) : .root ∈ key path ↔ DiskPath.isAbsolute path = true := by
  have hpart : ∀ part : List Char, Component.ofPart? part ≠ some .root := by
    intro part hpart
    rcases DiskPath.ofPart?_cases hpart with hup | ⟨name, hname⟩
    · cases hup
    · cases hname
  obtain ⟨first, rest, hparts⟩ := List.exists_cons_of_ne_nil (Text.splitOn_ne_nil '/' path.toList)
  have htail : .root ∉ rest.filterMap Component.ofPart? := by
    simp [hpart]
  rw [key, List.mem_filter, DiskPath.components_of_splitOn hparts, DiskPath.front, DiskPath.isAbsolute, beq_iff_eq]
  split
  · rename_i habsolute
    simp [habsolute]
  · rename_i hrelative
    split
    · simp [hrelative, htail]
    · simp [hrelative, htail, hpart]

end FileTable

end Rebuild
