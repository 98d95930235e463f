import Mathlib.Data.List.Infix
import Mathlib.Data.List.Nodup
import Rebuild.Proofs.Storage
import Rebuild.Proofs.Storage.Path

/-!
# Parents and children in a file table

A table of files keeps its tree twice: in the keys of its entries, and in the names that its directories
list.  Adding files where they fit, and removing files, keeps both in step.

* `FileTable.Linked`: the keys and the names that are listed agree;
* `FileTable.Linked.ensureDir`: directories are created so;
* `FileTable.Linked.addFile`, `FileTable.Linked.removeFile?`: files are added and removed so;
* `FileTable.Reached`: the tables that come about in this way.
-/

namespace Rebuild

def TableEntry.isDir : TableEntry → Bool
  | .file _ => false
  | .dir _ => true

namespace FileTable

open DiskPath (IsName below components)

variable {t t' : FileTable} {k parent : List Component} {name : String} {children names : List String}
variable {loose : List (List Component)} {path root : DiskPath} {content : List UInt8} {entry : TableEntry}

theorem get?_erase (t : FileTable) (k k' : List Component) :
    (t.erase k).get? k' = if k' = k then none else t.get? k' := by
  rw [get?, erase, lookup_filter_ne]
  rfl

theorem keyName?_concat (k : List Component) (name : String) : keyName? (k ++ [.name name]) = some name := by
  rw [keyName?, List.getLast?_concat]

theorem parentKey?_concat (k : List Component) (name : String) : parentKey? (k ++ [.name name]) = some k := by
  rw [parentKey?, if_neg, List.dropLast_concat]
  intro hroot
  have hlast := congrArg List.getLast? hroot
  rw [List.getLast?_concat] at hlast
  cases hlast

theorem ne_concat (k : List Component) (c : Component) : k ≠ k ++ [c] := by
  intro hsame
  simpa using congrArg List.length hsame

def kind? (t : FileTable) (k : List Component) : Option Bool :=
  (t.get? k).map TableEntry.isDir

theorem isSome_kind? (t : FileTable) (k : List Component) : (t.kind? k).isSome = (t.get? k).isSome :=
  Option.isSome_map

theorem kind?_eq_true_iff : t.kind? k = some true ↔ ∃ children, t.get? k = some (.dir children) := by
  rw [kind?, Option.map_eq_some_iff]
  constructor
  · rintro ⟨entry, hentry, hdir⟩
    cases entry with
    | file content => cases hdir
    | dir children => exact ⟨children, hentry⟩
  · rintro ⟨children, hfound⟩
    exact ⟨_, hfound, rfl⟩

theorem kind?_eq_false_iff : t.kind? k = some false ↔ ∃ content, t.get? k = some (.file content) := by
  rw [kind?, Option.map_eq_some_iff]
  constructor
  · rintro ⟨entry, hentry, hfile⟩
    cases entry with
    | file content => exact ⟨content, hentry⟩
    | dir children => cases hfile
  · rintro ⟨content, hfound⟩
    exact ⟨_, hfound, rfl⟩

theorem kind?_put (t : FileTable) (k : List Component) (entry : TableEntry) (k' : List Component) :
    (t.put k entry).kind? k' = if k' = k then some entry.isDir else t.kind? k' := by
  rw [kind?, get?_put]
  split
  · rfl
  · rfl

/-! ### Keys and children -/

/-- The keys of a table and the names that its directories list agree, but for `loose` keys, which no
directory needs to list. -/
structure Linked (t : FileTable) (loose : List (List Component)) : Prop where
  workDir : ∃ children, t.get? [] = some (.dir children)
  isKey : ∀ k, (t.get? k).isSome = true → IsKey k
  listed : ∀ k name, (t.get? (k ++ [.name name])).isSome = true → k ++ [.name name] ∉ loose →
    ∃ children, t.get? k = some (.dir children) ∧ name ∈ children
  exist : ∀ k children, t.get? k = some (.dir children) → ∀ name ∈ children,
    (t.get? (k ++ [.name name])).isSome = true
  nodup : ∀ k children, t.get? k = some (.dir children) → children.Nodup

namespace Linked

/-- The root directory needs no directory that lists it. -/
theorem of_root (h : Linked t ([.root] :: loose)) : Linked t loose := by
  refine { h with listed := fun k name hsome hnew => h.listed k name hsome ?_ }
  refine List.not_mem_cons_of_ne_of_not_mem (fun hroot => ?_) hnew
  have hlast := congrArg List.getLast? hroot
  rw [List.getLast?_concat] at hlast
  cases hlast

/-- A file or an empty directory may be put where no directory is. -/
theorem put (h : Linked t loose) (hk : IsKey k) (hnone : ∀ children, t.get? k ≠ some (.dir children))
    (hentry : ∀ children, entry = .dir children → children = []) : Linked (t.put k entry) (k :: loose) := by
  have hdir : ∀ k' children, (t.put k entry).get? k' = some (.dir children) →
      children = [] ∨ t.get? k' = some (.dir children) := by
    intro k' children hfound
    rw [get?_put] at hfound
    split at hfound
    · exact .inl (hentry children (Option.some.inj hfound))
    · exact .inr hfound
  have hold : ∀ k' children, t.get? k' = some (.dir children) →
      (t.put k entry).get? k' = some (.dir children) := by
    intro k' children hfound
    rw [get?_put, if_neg, hfound]
    rintro rfl
    exact hnone children hfound
  refine ⟨?_, fun k' hsome => ?_, fun k' name hsome hnew => ?_, fun k' children hfound name hname => ?_,
    fun k' children hfound => ?_⟩
  · obtain ⟨children, hfound⟩ := h.workDir
    exact ⟨children, hold _ _ hfound⟩
  · rw [get?_put] at hsome
    split at hsome
    · rename_i hsame
      exact hsame ▸ hk
    · exact h.isKey k' hsome
  · rw [List.mem_cons, not_or] at hnew
    rw [get?_put, if_neg hnew.1] at hsome
    obtain ⟨children, hfound, hname⟩ := h.listed k' name hsome hnew.2
    exact ⟨children, hold _ _ hfound, hname⟩
  · rcases hdir k' children hfound with rfl | hfound
    · cases hname
    · rw [get?_put]
      split
      · rfl
      · exact h.exist k' children hfound name hname
  · rcases hdir k' children hfound with rfl | hfound
    · exact List.nodup_nil
    · exact h.nodup k' children hfound

/-- A directory may list other children, as long as these are there and others are loose. -/
theorem relist {others : List String} {loose' : List (List Component)} (h : Linked t loose)
    (hparent : t.get? parent = some (.dir children)) (hnodup : others.Nodup)
    (hexist : ∀ name ∈ others, (t.get? (parent ++ [.name name])).isSome = true)
    (hlisted : ∀ name, (t.get? (parent ++ [.name name])).isSome = true →
      parent ++ [.name name] ∉ loose' → name ∈ others)
    (hloose : ∀ k name, k ≠ parent → k ++ [.name name] ∈ loose → k ++ [.name name] ∈ loose') :
    Linked (t.put parent (.dir others)) loose' ∧ ∀ k, (t.put parent (.dir others)).kind? k = t.kind? k := by
  have hkind : ∀ k, (t.put parent (.dir others)).kind? k = t.kind? k := by
    intro k
    rw [kind?_put]
    split
    · rename_i hk
      rw [hk, kind?, hparent]
      rfl
    · rfl
  have hsome : ∀ k, ((t.put parent (.dir others)).get? k).isSome = (t.get? k).isSome := by
    intro k
    rw [← isSome_kind?, hkind, isSome_kind?]
  have hdir : ∀ k found, (t.put parent (.dir others)).get? k = some (.dir found) →
      (k = parent ∧ found = others) ∨ (k ≠ parent ∧ t.get? k = some (.dir found)) := by
    intro k found hfound
    rw [get?_put] at hfound
    split at hfound
    · rename_i hk
      cases hfound
      exact .inl ⟨hk, rfl⟩
    · rename_i hk
      exact .inr ⟨hk, hfound⟩
  refine ⟨⟨?_, fun k hfound => ?_, fun k name hfound hnew => ?_, fun k found hfound name hname => ?_,
    fun k found hfound => ?_⟩, hkind⟩
  · obtain ⟨found, hfound⟩ := h.workDir
    rw [get?_put]
    split
    · exact ⟨_, rfl⟩
    · exact ⟨found, hfound⟩
  · exact h.isKey k (hsome k ▸ hfound)
  · rw [hsome] at hfound
    rw [get?_put]
    split
    · rename_i hk
      subst hk
      exact ⟨others, rfl, hlisted name hfound hnew⟩
    · rename_i hk
      exact h.listed k name hfound fun hbefore => hnew (hloose k name hk hbefore)
  · rw [hsome]
    rcases hdir k found hfound with ⟨rfl, rfl⟩ | ⟨_, hbefore⟩
    · exact hexist name hname
    · exact h.exist k found hbefore name hname
  · rcases hdir k found hfound with ⟨rfl, rfl⟩ | ⟨_, hbefore⟩
    · exact hnodup
    · exact h.nodup k found hbefore

/-- A directory may list one of its loose children. -/
theorem link (h : Linked t ((parent ++ [.name name]) :: loose)) (hparent : t.get? parent = some (.dir children))
    (hchild : (t.get? (parent ++ [.name name])).isSome = true) :
    Linked (t.link parent (parent ++ [.name name])) loose
      ∧ ∀ k, (t.link parent (parent ++ [.name name])).kind? k = t.kind? k := by
  have hother : ∀ k other, k ++ [.name other] ≠ parent ++ [.name name] → k ++ [.name other] ∉ loose →
      k ++ [.name other] ∉ (parent ++ [.name name]) :: loose := by
    intro k other hne hnew
    exact List.not_mem_cons_of_ne_of_not_mem hne hnew
  rw [FileTable.link, hparent, keyName?_concat]
  dsimp only
  split
  · rename_i hknown
    rw [List.contains_iff_mem] at hknown
    refine ⟨{ h with listed := fun k other hsome hnew => ?_ }, fun _ => rfl⟩
    by_cases hsame : k ++ [.name other] = parent ++ [.name name]
    · obtain ⟨rfl, hname⟩ := List.append_inj' hsame rfl
      cases hname
      exact ⟨children, hparent, hknown⟩
    · exact h.listed k other hsome (hother k other hsame hnew)
  · rename_i hunknown
    rw [List.contains_iff_mem] at hunknown
    refine h.relist hparent ?_ (fun other hmem => ?_) (fun other hsome hnew => ?_) (fun k other hk hmem => ?_)
    · exact List.nodup_append.mpr ⟨h.nodup parent children hparent, List.nodup_singleton name,
        fun other hbefore _ hlast hsame => hunknown (List.mem_singleton.mp hlast ▸ hsame ▸ hbefore)⟩
    · rcases List.mem_append.mp hmem with hbefore | hlast
      · exact h.exist parent children hparent other hbefore
      · rw [List.mem_singleton.mp hlast]
        exact hchild
    · rw [List.mem_append]
      by_cases hname : other = name
      · exact .inr (List.mem_singleton.mpr hname)
      · have hne : parent ++ [.name other] ≠ parent ++ [.name name] := by simpa using hname
        obtain ⟨found, hfound, hmem⟩ := h.listed parent other hsome (hother parent other hne hnew)
        rw [hparent] at hfound
        cases hfound
        exact .inl hmem
    · refine (List.mem_cons.mp hmem).resolve_left fun hsame => hk ?_
      exact (List.append_inj' hsame rfl).1

/-- An empty directory may be put where nothing is; it is loose, and everything else stays. -/
theorem create {k : List Component} (h : Linked t loose) (hk : IsKey k) (hnone : t.get? k = none) :
    Linked (t.put k (.dir [])) (k :: loose) ∧ (t.put k (.dir [])).kind? k = some true
      ∧ ∀ other kind, t.kind? other = some kind → (t.put k (.dir [])).kind? other = some kind := by
  refine ⟨?_, ?_, fun other kind hkind => ?_⟩
  · refine h.put hk (fun children hdir => ?_) fun children hnew => (TableEntry.dir.inj hnew).symm
    rw [hnone] at hdir
    cases hdir
  · rw [kind?_put, if_pos rfl]
    rfl
  · rw [kind?_put, if_neg, hkind]
    intro hsame
    rw [hsame, kind?, hnone] at hkind
    cases hkind

/-- Creating a directory, and those above it, where no file is in the way. -/
theorem ensureDir {above : List Component} (h : Linked t loose) (hk : IsKey above.reverse)
    (hfree : ∀ k, k <+: above.reverse → t.kind? k ≠ some false) :
    Linked (t.ensureDir above) loose ∧ (t.ensureDir above).kind? above.reverse = some true
      ∧ ∀ k kind, t.kind? k = some kind → (t.ensureDir above).kind? k = some kind := by
  -- by induction on the key, from its end
  induction above generalizing t loose with
  | nil =>
      obtain ⟨children, hworkDir⟩ := h.workDir
      rw [FileTable.ensureDir, hworkDir, Option.isSome_some, if_pos rfl]
      exact ⟨h, kind?_eq_true_iff.mpr ⟨children, hworkDir⟩, fun _ _ => id⟩
  | cons c above ih =>
      rw [List.reverse_cons] at hk hfree ⊢
      rw [FileTable.ensureDir]
      dsimp only
      rw [List.reverse_cons]
      split
      · rename_i hsome
        -- what is there already is a directory
        refine ⟨h, ?_, fun _ _ => id⟩
        rw [← isSome_kind?] at hsome
        obtain ⟨kind, hkind⟩ := Option.isSome_iff_exists.mp hsome
        cases kind with
        | false => exact absurd hkind (hfree _ List.prefix_rfl)
        | true => exact hkind
      · rename_i hnone
        rw [Option.not_isSome_iff_eq_none] at hnone
        obtain ⟨hput, hself, hgrows⟩ := h.create hk hnone
        rcases hk.concat_cases with ⟨habove, rfl⟩ | ⟨name, rfl, habove, _⟩
        · rw [if_pos rfl]
          rw [habove] at hput hself ⊢
          exact ⟨hput.of_root, hself, habove ▸ hgrows⟩
        · rw [if_neg (by simp)]
          have hfree' : ∀ k, k <+: above.reverse →
              (t.put (above.reverse ++ [.name name]) (.dir [])).kind? k ≠ some false := by
            intro k habove'
            rw [kind?_put]
            split
            · simp [TableEntry.isDir]
            · exact hfree k (habove'.trans (List.prefix_append _ _))
          obtain ⟨hlinked, hparent, hmore⟩ := ih hput habove hfree'
          obtain ⟨children, hchildren⟩ := kind?_eq_true_iff.mp hparent
          have hchild := hmore _ _ hself
          obtain ⟨hdone, hsame⟩ := hlinked.link hchildren (by rw [← isSome_kind?, hchild]; rfl)
          refine ⟨hdone, (hsame _).trans hchild, fun k kind hkind => (hsame k).trans ?_⟩
          exact hmore k kind (hgrows k kind hkind)

end Linked

/-! ### Adding and removing files -/

/-- A file fits into a table at a path that does not go up, where no directory is, and above which there is
no file. -/
def Fits (t : FileTable) (path : DiskPath) : Prop :=
  .up ∉ components path ∧ Storage.isDir t path = false ∧ ∀ k ∈ (key path).dropLast.inits, t.kind? k ≠ some false

instance (t : FileTable) (path : DiskPath) : Decidable (t.Fits path) :=
  inferInstanceAs (Decidable (_ ∧ _ ∧ _))

theorem isDir_iff : Storage.isDir t path = true ↔ ∃ children, t.get? (key path) = some (.dir children) := by
  simp only [Storage.isDir]
  split
  · rename_i children hdir
    exact iff_of_true rfl ⟨children, hdir⟩
  · rename_i hother
    refine iff_of_false Bool.false_ne_true ?_
    rintro ⟨children, hdir⟩
    exact hother children hdir

/-- **Adding a file** keeps parents and children in step. -/
theorem Linked.addFile (h : Linked t []) (hfits : t.Fits path) (content : List UInt8) :
    Linked (t.addFile path content) [] := by
  obtain ⟨hup, hdir, hfree⟩ := hfits
  have hk := isKey_key hup
  have hnone : ∀ children, t.get? (key path) ≠ some (.dir children) := by
    intro children hfound
    rw [isDir_iff.mpr ⟨children, hfound⟩] at hdir
    cases hdir
  have hput : Linked (t.put (key path) (.file content)) [key path] := h.put hk hnone nofun
  have hself : (t.put (key path) (.file content)).kind? (key path) = some false := by
    rw [kind?_put, if_pos rfl]
    rfl
  rw [FileTable.addFile]
  generalize key path = k at hk hnone hfree hput hself ⊢
  cases hk with
  | workDir =>
      obtain ⟨children, hworkDir⟩ := h.workDir
      exact absurd hworkDir (hnone children)
  | root => exact hput.of_root
  | @child parent name hparent hname =>
      rw [parentKey?_concat]
      dsimp only
      have hfree' : ∀ k, k <+: parent.reverse.reverse →
          (t.put (parent ++ [.name name]) (.file content)).kind? k ≠ some false := by
        intro k habove'
        rw [List.reverse_reverse] at habove'
        rw [kind?_put, if_neg]
        · refine hfree k ?_
          rwa [List.dropLast_concat, List.mem_inits]
        · rintro rfl
          have hlength := habove'.length_le
          rw [List.length_append, List.length_singleton] at hlength
          omega
      have hparent' : IsKey parent.reverse.reverse := by rwa [List.reverse_reverse]
      obtain ⟨hlinked, hfound, hmore⟩ := hput.ensureDir hparent' hfree'
      rw [List.reverse_reverse] at hfound
      obtain ⟨children, hchildren⟩ := kind?_eq_true_iff.mp hfound
      have hchild := hmore _ _ hself
      exact (hlinked.link hchildren (by rw [← isSome_kind?, hchild]; rfl)).1

/-- Nothing is listed that is not there, so a file that no directory lists may be taken away. -/
theorem Linked.erase (h : Linked t [k]) (hfile : t.kind? k = some false)
    (hunlisted : ∀ parent children name, t.get? parent = some (.dir children) → name ∈ children →
      parent ++ [.name name] ≠ k) : Linked (t.erase k) [] := by
  have hdir : ∀ k' children, (t.erase k).get? k' = some (.dir children) ↔ t.get? k' = some (.dir children) := by
    intro k' children
    rw [get?_erase]
    split
    · rename_i hk
      refine iff_of_false nofun fun hfound => ?_
      rw [← hk, kind?_eq_true_iff.mpr ⟨children, hfound⟩] at hfile
      cases hfile
    · rfl
  refine ⟨?_, fun k' hsome => ?_, fun k' name hsome _ => ?_, fun k' children hfound name hname => ?_,
    fun k' children hfound => h.nodup k' children ((hdir _ _).mp hfound)⟩
  · obtain ⟨children, hworkDir⟩ := h.workDir
    exact ⟨children, (hdir _ _).mpr hworkDir⟩
  · rw [get?_erase] at hsome
    split at hsome
    · cases hsome
    · exact h.isKey k' hsome
  · rw [get?_erase] at hsome
    split at hsome
    · cases hsome
    · rename_i hne
      obtain ⟨children, hfound, hname⟩ := h.listed k' name hsome (by simpa using hne)
      exact ⟨children, (hdir _ _).mpr hfound, hname⟩
  · have hfound' := (hdir _ _).mp hfound
    rw [get?_erase, if_neg (hunlisted k' children name hfound' hname)]
    exact h.exist k' children hfound' name hname

/-- Only what is found at the keys matters. -/
theorem Linked.congr (h : Linked t loose) (hsame : ∀ k, t'.get? k = t.get? k) : Linked t' loose := by
  refine ⟨?_, ?_, ?_, ?_, ?_⟩
  · simpa only [hsame] using h.workDir
  · simpa only [hsame] using h.isKey
  · simpa only [hsame] using h.listed
  · simpa only [hsame] using h.exist
  · simpa only [hsame] using h.nodup

/-- Where nothing is loose, anything may be called so. -/
theorem Linked.loosen (h : Linked t []) (loose : List (List Component)) : Linked t loose :=
  { h with listed := fun k name hsome _ => h.listed k name hsome List.not_mem_nil }

/-- A directory may forget a name; what the name led to is loose then. -/
theorem Linked.forget (h : Linked t []) (hparent : t.get? parent = some (.dir children)) (name : String) :
    Linked (t.put parent (.dir (children.filter (· != name)))) [parent ++ [.name name]]
      ∧ ∀ k, (t.put parent (.dir (children.filter (· != name)))).kind? k = t.kind? k := by
  refine (h.loosen [parent ++ [.name name]]).relist hparent ((h.nodup _ _ hparent).filter _) (fun other hother => ?_)
    (fun other hsome hnew => ?_) fun _ _ _ hnone => hnone
  · exact h.exist _ _ hparent other (List.mem_filter.mp hother).1
  · obtain ⟨found, hfound, hother⟩ := h.listed parent other hsome List.not_mem_nil
    rw [hparent] at hfound
    cases hfound
    rw [List.mem_filter, bne_iff_ne]
    refine ⟨hother, fun hsame => hnew ?_⟩
    rw [hsame]
    exact List.mem_singleton_self _

/-- **Removing a file** keeps parents and children in step. -/
theorem Linked.removeFile? (h : Linked t []) (hremoved : t.removeFile? path = some t') : Linked t' [] := by
  rw [FileTable.removeFile?] at hremoved
  dsimp only at hremoved
  generalize key path = k at hremoved
  split at hremoved
  · rename_i content hfile
    have hkind : t.kind? k = some false := kind?_eq_false_iff.mpr ⟨content, hfile⟩
    have hk : IsKey k := h.isKey k (by rw [hfile]; rfl)
    cases hk with
    | workDir =>
        obtain ⟨children, hworkDir⟩ := h.workDir
        rw [hworkDir] at hfile
        cases hfile
    | root =>
        cases hremoved
        refine (h.loosen [[.root]]).erase hkind fun parent children name _ _ hroot => ?_
        have hlast := congrArg List.getLast? hroot
        rw [List.getLast?_concat] at hlast
        cases hlast
    | @child parent name hparent hname =>
        obtain ⟨children, hchildren, hlisted⟩ := h.listed parent name (by rw [hfile]; rfl) List.not_mem_nil
        have hstays : (t.erase (parent ++ [.name name])).get? parent = some (.dir children) := by
          rw [get?_erase, if_neg (ne_concat parent _), hchildren]
        rw [parentKey?_concat, keyName?_concat] at hremoved
        dsimp only at hremoved
        rw [hstays] at hremoved
        cases hremoved
        -- first the directory forgets the name, then the file is taken away
        obtain ⟨hforgotten, hsame⟩ := h.forget hchildren name
        refine (hforgotten.erase ((hsame _).trans hkind) fun other found child hfound hchild heq => ?_).congr ?_
        · obtain ⟨rfl, hlast⟩ := List.append_inj' heq rfl
          rw [get?_put, if_pos rfl] at hfound
          cases hfound
          have hother := (List.mem_filter.mp hchild).2
          rw [bne_iff_ne] at hother
          exact hother (Component.name.inj (List.singleton_inj.mp hlast))
        · intro k
          simp only [get?_put, get?_erase]
          split
          · rename_i hk
            rw [if_neg (hk ▸ ne_concat parent _)]
          · rfl
  · cases hremoved

/-- The tables that come about by adding files where they fit, and removing files. -/
inductive Reached : FileTable → Prop
  | new : Reached {}
  | add {t : FileTable} {path : DiskPath} (content : List UInt8) (reached : Reached t) (hfits : t.Fits path) :
      Reached (t.addFile path content)
  | remove {t : FileTable} (path : DiskPath) (reached : Reached t) : Reached (Storage.remove t path).2

theorem linked_empty : Linked {} [] := by
  have hget : ∀ k, ({} : FileTable).get? k = if k = [] then some (.dir []) else none := by
    intro k
    show List.lookup k [([], TableEntry.dir [])] = _
    rw [List.lookup_cons]
    by_cases hk : k = []
    · simp [hk]
    · simp [hk, beq_eq_false_iff_ne.mpr hk]
  refine ⟨⟨[], rfl⟩, fun k hsome => ?_, fun k name hsome => ?_, fun k children hfound => ?_,
    fun k children hfound => ?_⟩
  · rw [hget] at hsome
    split at hsome
    · rename_i hk
      exact hk ▸ .workDir
    · cases hsome
  · simp [hget] at hsome
  · rw [hget] at hfound
    split at hfound
    · cases hfound
      nofun
    · cases hfound
  · rw [hget] at hfound
    split at hfound
    · cases hfound
      exact List.nodup_nil
    · cases hfound

/-- **In every such table** parents and children are in step. -/
theorem Reached.linked (h : Reached t) : Linked t [] := by
  induction h with
  | new => exact linked_empty
  | add content _ hfits ih => exact ih.addFile hfits content
  | @remove t path _ ih =>
      simp only [Storage.remove]
      cases hremoved : t.removeFile? path with
      | none => exact ih
      | some t' => exact ih.removeFile? hremoved

end FileTable

end Rebuild
